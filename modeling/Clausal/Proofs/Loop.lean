/-!
Loops that count their rounds. A round either leads to another one or ends the loop with a result;
a loop whose rounds decrease a measure comes to its end, and the measure bounds their number.
-/
namespace Clausal

/-- `Loops body n a r`: from `a` on the body is gone through `n` times, and the last time ends with
the result `r`. -/
inductive Loops {α β : Type} (body : α → α ⊕ β) : Nat → α → β → Prop where
  | last {a : α} {r : β} : body a = .inr r → Loops body 1 a r
  | again {n : Nat} {a b : α} {r : β} : body a = .inl b → Loops body n b r → Loops body (n + 1) a r

theorem exists_loops {α β : Type} {body : α → α ⊕ β} (Keeps : α → Prop) (measure : α → Nat)
    (decreases : ∀ a b, Keeps a → body a = .inl b → Keeps b ∧ measure b < measure a) {a : α}
    (h : Keeps a) : ∃ n r, n ≤ measure a + 1 ∧ Loops body n a r := by
  generalize size : measure a = m
  induction m using Nat.strongRecOn generalizing a with
  | ind m ih =>
      cases round : body a with
      | inr r => exact ⟨1, r, by omega, .last round⟩
      | inl b =>
          obtain ⟨kept, less⟩ := decreases a b h round
          obtain ⟨n, r, bound, loops⟩ := ih (measure b) (size ▸ less) kept rfl
          exact ⟨n + 1, r, by omega, .again round loops⟩

end Clausal

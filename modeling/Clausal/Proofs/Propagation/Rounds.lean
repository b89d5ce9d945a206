import Clausal.Proofs.Loop
import Clausal.Proofs.Propagation.Fixpoint

/-!
The two loops of propagation end. A pass over the clauses is only repeated after it has forced
something, and the two rules take turns only as long as pure literals are found; both make the trail
longer, which has no more entries than there are variables.
-/
namespace Clausal

namespace Progress

open Trail

/-- A pass over the clauses as a round of unit propagation. -/
def passRound (f : Formula) (p : Progress) :
    Progress ⊕ (Except Fault Propagated × Progress) :=
  match p.unitPass f.clauses with
  | (.ok .fixpoint, q) =>
    if q.trail.size = p.trail.size then .inr (.ok .fixpoint, q) else .inl q
  | r => .inr r

/-- Unit propagation and an elimination of pure literals as a round of propagation. -/
def ruleRound (f : Formula) (pureLiterals : Bool) (p : Progress) :
    Progress ⊕ (Except Fault Propagated × Progress) :=
  match p.unitPropagate f with
  | (.ok .fixpoint, q) =>
    if pureLiterals then
      match q.eliminatePure f with
      | (.ok 0, r) => .inr (.ok .fixpoint, r)
      | (.ok (_ + 1), r) => .inl r
      | (.error e, r) => .inr (.error e, r)
    else .inr (.ok .fixpoint, q)
  | r => .inr r

variable {f : Formula} {pureLiterals : Bool} {p q : Progress}
  {r : Except Fault Propagated × Progress} {n : Nat}

theorem unitPropagate_eq_round (f : Formula) (p : Progress) :
    p.unitPropagate f = (p.passRound f).elim (unitPropagate f) id := by
  rw [unitPropagate, passRound]
  rcases p.unitPass f.clauses with ⟨_ | _ | _, q⟩
  · rfl
  · rfl
  · dsimp only
    split <;> rfl

theorem propagate_eq_round (f : Formula) (pureLiterals : Bool) (p : Progress) :
    p.propagate f pureLiterals =
      (p.ruleRound f pureLiterals).elim (propagate f pureLiterals) id := by
  rw [propagate_eq, ruleRound]
  rcases p.unitPropagate f with ⟨_ | _ | _, q⟩
  · rfl
  · rfl
  · cases pureLiterals with
    | false => rfl
    | true =>
        dsimp only
        rcases q.eliminatePure f with ⟨_ | _ | _, r⟩ <;> rfl

theorem unitPropagate_of_loops (h : Loops (passRound f) n p r) : p.unitPropagate f = r := by
  induction h with
  | last ended => rw [unitPropagate_eq_round, ended, Sum.elim_inr, id]
  | again round _ ih => rw [unitPropagate_eq_round, round, Sum.elim_inl, ih]

theorem propagate_of_loops (h : Loops (ruleRound f pureLiterals) n p r) :
    p.propagate f pureLiterals = r := by
  induction h with
  | last ended => rw [propagate_eq_round, ended, Sum.elim_inr, id]
  | again round _ ih => rw [propagate_eq_round, round, Sum.elim_inl, ih]

theorem lengthens_of_passRound (h : p.passRound f = .inl q) :
    Grows p.trail q.trail ∧ p.trail.size < q.trail.size := by
  rw [passRound] at h
  split at h
  · rename_i pass
    have grown := grows_of_unitPass pass
    have := grown.size_le
    split at h
    · cases h
    · cases h
      exact ⟨grown, by omega⟩
  · cases h

theorem lengthens_of_ruleRound (h : p.ruleRound f pureLiterals = .inl q) :
    Grows p.trail q.trail ∧ p.trail.size < q.trail.size := by
  rw [ruleRound] at h
  split at h
  · rename_i unit
    have grown := grows_of_unitPropagate unit
    have := grown.size_le
    split at h
    · split at h
      · cases h
      · rename_i eliminated
        cases h
        have := size_of_eliminatePure eliminated
        exact ⟨grown.trans (grows_of_eliminatePure eliminated), by omega⟩
      · cases h
    · cases h
  · cases h

/-- Rounds that make the trail longer come to an end, one after the trail is full at the latest. -/
theorem exists_loops_of_lengthens {m : Nat} {β : Type} {body : Progress → Progress ⊕ β}
    (lengthens : ∀ p q, body p = .inl q → Grows p.trail q.trail ∧ p.trail.size < q.trail.size)
    (co : Coherent m p.trail) : ∃ n r, n ≤ m - p.trail.size + 1 ∧ Loops body n p r := by
  refine exists_loops (fun p : Progress => Coherent m p.trail) (fun p => m - p.trail.size) ?_ co
  intro p q co round
  obtain ⟨grown, longer⟩ := lengthens p q round
  have full := (co.grows grown).size_le
  exact ⟨co.grows grown, by omega⟩

theorem unitPropagate_loops (co : Coherent f.numVariables p.trail) :
    ∃ n ≤ f.numVariables - p.trail.size + 1, Loops (passRound f) n p (p.unitPropagate f) := by
  obtain ⟨n, r, bound, loops⟩ :=
    exists_loops_of_lengthens (fun _ _ => lengthens_of_passRound) co
  exact ⟨n, bound, unitPropagate_of_loops loops ▸ loops⟩

theorem propagate_loops (pureLiterals : Bool) (co : Coherent f.numVariables p.trail) :
    ∃ n ≤ f.numVariables - p.trail.size + 1,
      Loops (ruleRound f pureLiterals) n p (p.propagate f pureLiterals) := by
  obtain ⟨n, r, bound, loops⟩ :=
    exists_loops_of_lengthens (fun _ _ => lengthens_of_ruleRound) co
  exact ⟨n, bound, propagate_of_loops loops ▸ loops⟩

end Progress

end Clausal

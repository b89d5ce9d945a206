import Clausal.Proofs.Literal
import Clausal.Proofs.Trail.Coherence

/-!
Trails against valuations. A valuation agrees with a trail when it gives every assigned variable
its value; laying a trail over a valuation is the least change that makes it agree.
-/
namespace Clausal.Trail

def Agrees (t : Trail) (ν : Nat → Bool) : Prop :=
  ∀ v b, t.value v = some b → ν v = b

/-- The literal is true on the trail. -/
def Asserts (t : Trail) (l : Literal) : Prop :=
  t.value (Literal.var l) = some (Literal.isPositive l)

/-- The valuation with the values of the trail laid over it. -/
def override (t : Trail) (ν : Nat → Bool) : Nat → Bool :=
  fun v => (t.value v).getD (ν v)

variable {t u : Trail} {ν : Nat → Bool} {l : Literal}

theorem agrees_empty (n : Int) (ν : Nat → Bool) : (empty n).Agrees ν := by
  intro v b held
  rw [value_empty] at held
  cases held

theorem holds_of_asserts (agrees : t.Agrees ν) (h : t.Asserts l) : Literal.holds ν l = true :=
  Literal.holds_iff.2 (agrees _ _ h)

theorem asserts_neg_iff (h : l ≠ 0) :
    t.Asserts (-l) ↔ t.value (Literal.var l) = some (!Literal.isPositive l) := by
  rw [Asserts, Literal.var_neg, Literal.isPositive_neg h]

theorem not_asserts_neg (h : l ≠ 0) (asserted : t.Asserts l) : ¬t.Asserts (-l) := by
  rw [asserts_neg_iff h, asserted]
  simp

theorem value_ne_none_of_asserts_neg (denied : t.Asserts (-l)) :
    t.value (Literal.var l) ≠ none := by
  rw [Asserts, Literal.var_neg] at denied
  simp [denied]

theorem asserts_or_neg (h : l ≠ 0) (assigned : t.value (Literal.var l) ≠ none) :
    t.Asserts l ∨ t.Asserts (-l) := by
  obtain ⟨b, held⟩ := Option.ne_none_iff_exists'.1 assigned
  rw [asserts_neg_iff h, Asserts, held]
  cases b <;> cases Literal.isPositive l <;> simp

theorem asserts_ofVar {v : Nat} (h : 1 ≤ v) (b : Bool) :
    t.Asserts (Literal.ofVar v b) ↔ t.value v = some b := by
  rw [Asserts, Literal.var_ofVar, Literal.isPositive_ofVar h]

theorem satisfiedBy_value_iff {c : Clause} :
    Clause.satisfiedBy t.value c = true ↔ ∃ l ∈ c, t.Asserts l :=
  Clause.satisfiedBy_iff

theorem Grows.agrees (h : Grows t u) (agrees : u.Agrees ν) : t.Agrees ν :=
  fun v b held => agrees v b (h.value_eq_some held)

theorem Grows.asserts (h : Grows t u) (asserted : t.Asserts l) : u.Asserts l :=
  h.value_eq_some asserted

theorem Coherent.agrees_iff {n : Nat} (co : Coherent n t) :
    t.Agrees ν ↔ ∀ e ∈ t.entries, ν e.var = e.value := by
  constructor
  · intro agrees e he
    exact agrees e.var e.value ((co.value_iff e.var e.value).2 ⟨e, he, rfl, rfl⟩)
  · intro all v b held
    obtain ⟨e, he, rfl, rfl⟩ := (co.value_iff v b).1 held
    exact all e he

/-- A trail that has grown still shows which valuations agreed with it before. -/
theorem Grows.agrees_iff_take {n : Nat} (h : Grows t u) (co : Coherent n t) :
    t.Agrees ν ↔ ∀ e ∈ u.chronological.take t.size, ν e.var = e.value := by
  rw [co.agrees_iff, h.take_chronological]
  simp only [chronological, List.mem_reverse]

theorem Coherent.agrees_of_holds {n : Nat} (co : Coherent n t)
    (true_ : ∀ l, t.Asserts l → Literal.holds ν l = true) : t.Agrees ν := by
  intro v b held
  have positive : 1 ≤ v := by
    obtain ⟨e, he, rfl, _⟩ := (co.value_iff v b).1 held
    exact (co.inRange e he).1
  have := Literal.holds_iff.1 (true_ _ ((asserts_ofVar positive b).2 held))
  rwa [Literal.var_ofVar, Literal.isPositive_ofVar positive] at this

theorem agrees_assign_iff {v : Int} {b : Bool} {kind : Entry.Kind}
    (h : t.assign v b kind = .ok u) : u.Agrees ν ↔ t.Agrees ν ∧ ν v.toNat = b := by
  constructor
  · intro agrees
    refine ⟨Grows.agrees (.assign .refl h) agrees, agrees v.toNat b ?_⟩
    rw [value_of_assign h, if_pos rfl]
  · rintro ⟨agrees, last⟩ w c held
    rw [value_of_assign h] at held
    split at held
    · rename_i same
      rw [same, last]
      exact Option.some.inj held
    · exact agrees w c held

theorem asserts_of_force {k : Literal} (hl : l ≠ 0) (h : t.force l = .ok u)
    (after : u.Asserts k) : k = l ∨ t.Asserts k := by
  rw [Asserts, value_of_assign h, Int.toNat_natCast] at after
  split at after
  · rename_i same
    exact .inl (Literal.eq_of_var_eq hl same (Option.some.inj after).symm)
  · exact .inr after

theorem agrees_override (t : Trail) (ν : Nat → Bool) : t.Agrees (t.override ν) := by
  intro v b held
  simp [override, held]

theorem override_of_agrees (agrees : t.Agrees ν) : t.override ν = ν := by
  funext v
  cases held : t.value v with
  | none => simp [override, held]
  | some b => simp [override, held, agrees v b held]

theorem override_override (h : Grows t u) (ν : Nat → Bool) :
    u.override (t.override ν) = u.override ν := by
  funext v
  cases held : u.value v with
  | none => simp [override, held, h.value_eq_none held]
  | some b => simp [override, held]

end Clausal.Trail

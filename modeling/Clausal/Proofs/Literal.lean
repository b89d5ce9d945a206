import Clausal.Heuristic

/-!
Truth of literals and clauses as logical statements. A literal and its complement speak of one
variable and are never both true; a valuation makes a formula true when each clause has a literal
that it makes true.
-/
namespace Clausal

namespace Literal

@[simp]
theorem var_neg (l : Literal) : var (-l) = var l :=
  Int.natAbs_neg l

@[simp]
theorem var_natCast (v : Nat) : var v = v :=
  Int.natAbs_natCast v

theorem isPositive_natCast {v : Nat} (positive : 1 ≤ v) : isPositive v = true :=
  decide_eq_true (Int.natCast_pos.2 positive)

theorem isPositive_neg_natCast (v : Nat) : isPositive (-v) = false :=
  decide_eq_false (show ¬(0 : Int) < -v by omega)

theorem isPositive_neg {l : Literal} (h : l ≠ 0) : isPositive (-l) = !isPositive l := by
  have sign (n : Int) (hn : n ≠ 0) : decide (0 < -n) = !decide (0 < n) := by
    by_cases pos : 0 < n
    · rw [decide_eq_true pos, decide_eq_false (by omega)]
      rfl
    · rw [decide_eq_false pos, decide_eq_true (by omega)]
      rfl
  exact sign l h

theorem holds_neg {l : Literal} (h : l ≠ 0) (ν : Nat → Bool) : holds ν (-l) = !holds ν l := by
  unfold holds under
  rw [var_neg, isPositive_neg h]
  cases ν (var l) <;> cases isPositive l <;> rfl

theorem not_holds_neg {l : Literal} (h : l ≠ 0) {ν : Nat → Bool} (true_ : holds ν l = true) :
    ¬holds ν (-l) = true := by
  simp [holds_neg h, true_]

theorem holds_iff {l : Literal} {ν : Nat → Bool} :
    holds ν l = true ↔ ν (var l) = isPositive l := by
  simp [holds, under]

theorem holds_natCast {v : Nat} (positive : 1 ≤ v) (ν : Nat → Bool) : holds ν v = ν v := by
  simp [holds, under, isPositive_natCast positive]

theorem eq_or_eq_neg {k l : Literal} (same : var k = var l) : k = l ∨ k = -l :=
  Int.natAbs_eq_natAbs_iff.1 same

theorem eq_of_var_eq {k l : Literal} (hl : l ≠ 0) (same : var k = var l)
    (sign : isPositive k = isPositive l) : k = l := by
  rcases eq_or_eq_neg same with equal | opposite
  · exact equal
  · rw [opposite, isPositive_neg hl] at sign
    exact absurd sign (by cases isPositive l <;> decide)

theorem var_pos {l : Literal} (h : l ≠ 0) : 1 ≤ var l :=
  Int.natAbs_pos.2 h

@[simp]
theorem var_ofVar (v : Nat) (b : Bool) : var (ofVar v b) = v := by
  cases b <;> simp [ofVar, var]

theorem isPositive_ofVar {v : Nat} (h : 1 ≤ v) (b : Bool) : isPositive (ofVar v b) = b := by
  cases b with
  | false => exact isPositive_neg_natCast v
  | true => exact isPositive_natCast h

end Literal

namespace Clause

theorem holds_iff {c : Clause} {ν : Nat → Bool} :
    holds ν c = true ↔ ∃ l ∈ c, Literal.holds ν l = true := by
  simp [holds, List.any_eq_true]

theorem satisfiedBy_iff {c : Clause} {α : Nat → Option Bool} :
    satisfiedBy α c = true ↔ ∃ l ∈ c, α (Literal.var l) = some (Literal.isPositive l) := by
  simp [satisfiedBy, List.any_eq_true]

end Clause

namespace Formula

variable {f : Formula} {c : Clause} {l : Literal}

theorem holds_iff {ν : Nat → Bool} :
    f.holds ν = true ↔ ∀ c ∈ f.clauses, ∃ l ∈ c, Literal.holds ν l = true := by
  simp [holds, Clause.holds_iff]

theorem satisfiedBy_iff {α : Nat → Option Bool} :
    f.satisfiedBy α = true ↔ ∀ c ∈ f.clauses, Clause.satisfiedBy α c = true := by
  simp [satisfiedBy]

theorem ne_zero_of_mem (hc : c ∈ f.clauses) (hl : l ∈ c) : l ≠ 0 :=
  (f.inRange c hc l hl).1

theorem var_le_of_mem (hc : c ∈ f.clauses) (hl : l ∈ c) : Literal.var l ≤ f.numVariables :=
  (f.inRange c hc l hl).2

theorem mem_vars {v : Nat} : v ∈ f.vars ↔ 1 ≤ v ∧ v ≤ f.numVariables := by
  simp only [vars, List.mem_range'_1]
  omega

end Formula

end Clausal

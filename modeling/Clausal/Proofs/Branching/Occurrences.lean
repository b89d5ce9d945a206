import Clausal.Proofs.Branching

/-!
How often literals occur in a formula, as numbers of clauses. No clause repeats a literal, so the
tally of what is left of a formula says in how many unsatisfied clauses an open literal stands, and
the balance of its literals compares the clauses that assert a variable with those that deny it.
-/
namespace Clausal

namespace Literal

theorem var_eq_iff {k : Literal} {v : Nat} : var k = v ↔ k = v ∨ k = -v :=
  Int.natAbs_eq_iff

theorem polarity_natCast {v : Nat} (positive : 1 ≤ v) : polarity v = 1 :=
  if_pos (isPositive_natCast positive)

theorem polarity_neg_natCast (v : Nat) : polarity (-v) = -1 :=
  if_neg (Bool.eq_false_iff.1 (isPositive_neg_natCast v))

theorem countP_var {v : Nat} (positive : 1 ≤ v) (ls : List Literal) :
    ls.countP (fun k => var k == v) = ls.count (v : Int) + ls.count (-(v : Int)) := by
  have distinct : (v : Int) ≠ -v := by omega
  induction ls with
  | nil => rfl
  | cons k ls ih =>
      simp only [List.countP_cons, List.count_cons, ih, beq_iff_eq, var_eq_iff]
      by_cases asserts : k = v
      · simp [asserts, distinct]
        omega
      · by_cases denies : k = -v <;> simp [asserts, denies, distinct.symm]
        omega

/-- How often the literals assert the variable, less how often they deny it. -/
def balance (ls : List Literal) (v : Nat) : Int :=
  (ls.count (v : Int) : Int) - ls.count (-(v : Int))

theorem balance_cons_self {l : Literal} (nonzero : l ≠ 0) (ls : List Literal) :
    balance (l :: ls) (var l) = polarity l + balance ls (var l) := by
  obtain ⟨v, positive, sign⟩ : ∃ v : Nat, 1 ≤ v ∧ (l = v ∨ l = -v) :=
    ⟨var l, var_pos nonzero, var_eq_iff.1 rfl⟩
  have distinct : (v : Int) ≠ -v := by omega
  rcases sign with rfl | rfl
  · simp [balance, distinct, polarity_natCast positive]
    omega
  · simp [balance, distinct.symm, polarity_neg_natCast]
    omega

theorem balance_cons_of_ne {l : Literal} {v : Nat} (other : var l ≠ v) (ls : List Literal) :
    balance (l :: ls) v = balance ls v := by
  have asserts : ¬l = v := fun same => other (var_eq_iff.2 (.inl same))
  have denies : ¬l = -v := fun same => other (var_eq_iff.2 (.inr same))
  simp [balance, asserts, denies]

theorem balance_eq_zero {ls : List Literal} {v : Nat} (absent : ∀ k ∈ ls, var k ≠ v) :
    balance ls v = 0 := by
  induction ls with
  | nil => rfl
  | cons k ls ih =>
      obtain ⟨first, later⟩ := List.forall_mem_cons.1 absent
      rw [balance_cons_of_ne first, ih later]

end Literal

/-- Where no clause repeats a literal, its occurrences are the clauses that contain it. -/
theorem Clause.count_flatten {cs : List Clause} (distinct : ∀ c ∈ cs, c.Nodup) (l : Literal) :
    cs.flatten.count l = cs.countP (l ∈ ·) := by
  induction cs with
  | nil => rfl
  | cons c cs ih =>
      obtain ⟨first, later⟩ := List.forall_mem_cons.1 distinct
      rw [List.flatten_cons, List.count_append, ih later, first.count, List.countP_cons]
      simp only [decide_eq_true_eq]
      omega

namespace Formula

/-- The clauses that the trail does not satisfy. -/
def unsatisfied (f : Formula) (t : Trail) : List Clause :=
  f.clauses.filter fun c => !c.satisfiedBy t.value

/-- The number of unsatisfied clauses that contain the literal. -/
def demand (f : Formula) (t : Trail) (l : Literal) : Nat :=
  (f.unsatisfied t).countP (l ∈ ·)

variable {f : Formula} {t : Trail} {l : Literal} {c : Clause} {v : Nat}

theorem mem_unsatisfied : c ∈ f.unsatisfied t ↔ c ∈ f.clauses ∧ ∀ l ∈ c, ¬t.Asserts l := by
  rw [unsatisfied, List.mem_filter, Bool.not_eq_true', ← Bool.not_eq_true,
    Trail.satisfiedBy_value_iff]
  simp

theorem mem_openOccurrences_iff : l ∈ t.openOccurrences f.clauses ↔
    ∃ c ∈ f.unsatisfied t, l ∈ c ∧ t.value (Literal.var l) = none := by
  simp only [Trail.mem_openOccurrences, mem_unsatisfied, and_assoc]

theorem nodup_of_mem_unsatisfied (h : c ∈ f.unsatisfied t) : c.Nodup :=
  f.nodup c (mem_unsatisfied.1 h).1

/-- The clauses that assert the variable, less those that deny it. -/
theorem balance_literals (f : Formula) (v : Nat) : Literal.balance f.literals v =
    (f.clauses.countP ((v : Int) ∈ ·) : Int) - f.clauses.countP (-(v : Int) ∈ ·) := by
  rw [Literal.balance, literals, Clause.count_flatten f.nodup, Clause.count_flatten f.nodup]

theorem count_openOccurrences (fresh : t.value (Literal.var l) = none) :
    (t.openOccurrences f.clauses).count l = f.demand t l := by
  have whole (c : Clause) : (t.openLiterals c).count l = c.count l :=
    List.count_filter (by rw [fresh, Option.isNone_none])
  rw [Trail.openOccurrences, List.count_flatten, List.map_map, demand,
    ← Clause.count_flatten fun c hc => nodup_of_mem_unsatisfied hc, List.count_flatten]
  exact congrArg List.sum (List.map_congr_left fun c _ => whole c)

theorem count_tally (co : Trail.Coherent f.numVariables t)
    (open_ : t.IsOpen f.numVariables (Literal.var l)) :
    (t.tally (t.openOccurrences f.clauses)).count l = f.demand t l := by
  obtain ⟨low, high, fresh⟩ := open_
  have nonzero : l ≠ 0 := Int.natAbs_pos.1 low
  have inside : Literal.var l < t.values.size := by rw [co.cells]; omega
  rw [Trail.tally, Tally.count_ofLiterals nonzero inside, count_openOccurrences fresh]

theorem total_tally (co : Trail.Coherent f.numVariables t) (open_ : t.IsOpen f.numVariables v) :
    (t.tally (t.openOccurrences f.clauses)).total v = f.demand t v + f.demand t (-v) := by
  obtain ⟨low, high, fresh⟩ := open_
  have inside : v < t.values.size := by rw [co.cells]; omega
  rw [Trail.tally, Tally.total_ofLiterals inside, Literal.countP_var low,
    count_openOccurrences (by rw [Literal.var_natCast, fresh]),
    count_openOccurrences (by rw [Literal.var_neg, Literal.var_natCast, fresh])]

end Formula

end Clausal

import Clausal.Proofs.Reading
import Clausal.Proofs.Reordering.Propagation
import Mathlib.Order.Bounds.Basic

/-!
Unit propagation has one result. What it makes true up to a fixpoint is the least set of literals
that holds the literals of the trail and is closed under unit clauses, and it ends in a conflict
where that set refutes a clause. Neither depends on how the clauses are written down: in which order,
with which order of literals, or how often.
-/
namespace Clausal

namespace Literal

theorem ofVar_var {l : Literal} (h : l ≠ 0) : ofVar (var l) (isPositive l) = l :=
  eq_of_var_eq h (var_ofVar _ _) (isPositive_ofVar (var_pos h) _)

end Literal

namespace Trail

/-- The literals made true by the entries, in the order in which they were made. -/
def literals (t : Trail) : List Literal :=
  t.chronological.map fun e => Literal.ofVar e.var e.value

variable {n : Nat} {t u : Trail} {l : Literal}

theorem Coherent.mem_literals (co : Coherent n t) : l ∈ t.literals ↔ t.Asserts l := by
  simp only [literals, chronological, List.mem_map, List.mem_reverse]
  constructor
  · rintro ⟨e, he, rfl⟩
    rw [asserts_ofVar (co.inRange e he).1, co.value_iff]
    exact ⟨e, he, rfl, rfl⟩
  · intro asserted
    have nonzero : l ≠ 0 := by
      rintro rfl
      rw [Asserts, Literal.var, Int.natAbs_zero, co.value_zero] at asserted
      cases asserted
    obtain ⟨e, he, var, value⟩ := (co.value_iff _ _).1 asserted
    exact ⟨e, he, by rw [var, value, Literal.ofVar_var nonzero]⟩

/-- Where the set refutes all literals of a clause but one, it holds that one. -/
def ClosedUnder (clauses : List Clause) (S : Set Literal) : Prop :=
  ∀ c ∈ clauses, ∀ l ∈ c, (∀ k ∈ c, k ≠ l → -k ∈ S) → l ∈ S

theorem isLeast_derives (clauses : List Clause) (t : Trail) :
    IsLeast {S | (∀ l, t.Asserts l → l ∈ S) ∧ ClosedUnder clauses S} {l | t.Derives clauses l} := by
  refine ⟨⟨fun l asserted => .asserted asserted, fun c hc l hl others => .unit hc hl others⟩, ?_⟩
  rintro S ⟨start, closed⟩ l derived
  induction derived with
  | asserted asserted => exact start _ asserted
  | unit hc hl _ ih => exact closed _ hc _ hl ih

end Trail

namespace Formula

variable {f g : Formula}

/-- Any way to write the clauses of a formula is accepted, as a formula with the same clauses. -/
theorem exists_ofLists_of_sets {others : List (List Int)}
    (sets : (others.map List.toFinset).toFinset = f.clauseSets) :
    ∃ g, ofLists others (some f.numVariables) = .ok g ∧ f.SameClauses g := by
  have read {d : List Int} (hd : d ∈ others) : ∃ c ∈ f.clauses, ∀ l, l ∈ d ↔ l ∈ c :=
    exists_of_sets sets hd
  have nonzero : ∀ d ∈ others, ∀ l ∈ d, l ≠ 0 := by
    intro d hd l hl
    obtain ⟨c, hc, same⟩ := read hd
    exact f.ne_zero_of_mem hc ((same l).1 hl)
  have fits : ∀ n ∈ some f.numVariables, ∀ d ∈ others, ∀ l ∈ d, Literal.var l ≤ n := by
    rintro _ ⟨⟩ d hd l hl
    obtain ⟨c, hc, same⟩ := read hd
    exact f.var_le_of_mem hc ((same l).1 hl)
  obtain ⟨g, accepted⟩ := exists_ofLists nonzero fits
  obtain ⟨clauses, _, counted⟩ := ofLists_eq_ok accepted
  refine ⟨g, accepted, (counted f.numVariables rfl).symm, ?_, ?_⟩
  · intro c hc
    obtain ⟨d, hd, same⟩ := exists_of_sets sets.symm hc
    rw [clauses]
    refine ⟨_, List.mem_map_of_mem hd, fun l => ?_⟩
    rw [same, Clause.mem_normalize]
  · intro d hd
    rw [clauses, List.mem_map] at hd
    obtain ⟨d, hd, rfl⟩ := hd
    obtain ⟨c, hc, same⟩ := read hd
    refine ⟨c, hc, fun l => ?_⟩
    rw [Clause.mem_normalize, same]

end Formula

namespace Progress

open Trail

variable {f : Formula} {p : Progress}

/-- Unit propagation ends alike for every order of the clauses and of the literals in them, with or
without repetitions. It follows the least set of literals that holds those of the trail and is closed
under unit clauses: it ends in a conflict exactly when that set refutes a clause, and up to a fixpoint
it makes exactly that set true. -/
theorem unitPropagate_least (grown : Grows (.empty f.numVariables) p.trail) :
    ∃ outcome q least, p.unitPropagate f = (.ok outcome, q) ∧
      IsLeast {S | (∀ l ∈ p.trail.literals, l ∈ S) ∧ ClosedUnder f.clauses S} least ∧
      (outcome = .conflict ↔ ∃ c ∈ f.clauses, ∀ l ∈ c, -l ∈ least) ∧
      (outcome = .fixpoint → ∀ l, l ∈ q.trail.literals ↔ l ∈ least) ∧
      ∀ others : List (List Int), (others.map List.toFinset).toFinset = f.clauseSets →
        ∃ g r, Formula.ofLists others (some f.numVariables) = .ok g ∧
          p.unitPropagate g = (.ok outcome, r) ∧
          (outcome = .fixpoint → ∀ l, l ∈ r.trail.literals ↔ l ∈ least) := by
  have co := (coherent_empty f.numVariables).grows grown
  obtain ⟨outcome, q, unit, deduced, conflict, derives⟩ := unitPropagate_derives co
  have coQ := deduced.coherent co
  have least := isLeast_derives f.clauses p.trail
  simp only [← co.mem_literals] at least
  refine ⟨outcome, q, _, unit, least, conflict, fun ended l => ?_, fun others sets => ?_⟩
  · exact coQ.mem_literals.trans (derives ended l)
  · obtain ⟨g, accepted, same⟩ := Formula.exists_ofLists_of_sets sets
    obtain ⟨_, _, r, unit', unitR, _, right, values⟩ :=
      unitPropagate_alike (p := p) (q := p) same co (same.count ▸ co) rfl
    cases unit.symm.trans unit'
    refine ⟨g, r, accepted, unitR, fun ended l => ?_⟩
    rw [(right.coherent (same.count ▸ co)).mem_literals, Asserts, ← values ended]
    exact derives ended l

theorem unitPropagate_least_chain :
    let f : Formula := ⟨3, [[-2, 3], [-1, 2]], by decide, by decide⟩
    let p : Progress := ⟨⟨3, #[none, some true, none, none], [⟨1, true, .decision⟩], 1⟩, {}⟩
    let others : List (List Int) := [[2, -1, 2], [3, -2], [-1, 2]]
    Grows (.empty f.numVariables) p.trail ∧ (others.map List.toFinset).toFinset = f.clauseSets ∧
      ∃ g r least, Formula.ofLists others (some f.numVariables) = .ok g ∧
        p.unitPropagate g = (.ok .fixpoint, r) ∧
        IsLeast {S | (∀ l ∈ p.trail.literals, l ∈ S) ∧ ClosedUnder f.clauses S} least ∧
        (∀ l, l ∈ least ↔ l ∈ ([1, 2, 3] : List Literal)) ∧
        ∀ l, l ∈ r.trail.literals ↔ l ∈ ([1, 2, 3] : List Literal) := by
  intro f p others
  have decided : (Trail.empty f.numVariables).assign 1 true .decision = .ok p.trail := rfl
  have grown : Grows (.empty f.numVariables) p.trail := .assign .refl decided
  have sets : (others.map List.toFinset).toFinset = f.clauseSets := by decide
  let forced : Progress :=
    ⟨⟨3, #[none, some true, some true, some true],
        [⟨3, true, .forced⟩, ⟨2, true, .forced⟩, ⟨1, true, .decision⟩], 1⟩, { propagations := 2 }⟩
  have unit : p.unitPropagate f = (.ok .fixpoint, forced) := by with_unfolding_all rfl
  obtain ⟨outcome, q, least, unit', closure, _, reached, alike⟩ := unitPropagate_least grown
  cases unit.symm.trans unit'
  have members (l : Literal) : l ∈ least ↔ l ∈ ([1, 2, 3] : List Literal) := (reached rfl l).symm
  obtain ⟨g, r, accepted, unitR, same⟩ := alike others sets
  exact ⟨grown, sets, g, r, least, accepted, unitR, closure, members,
    fun l => (same rfl l).trans (members l)⟩

end Progress

end Clausal

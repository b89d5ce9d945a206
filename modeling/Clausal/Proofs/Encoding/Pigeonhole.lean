import Clausal.Encoding.Pigeonhole
import Clausal.Proofs.Encoding.Grid
import Clausal.Proofs.Solver
import Mathlib.Data.Fintype.Card

/-!
The pigeonhole clauses say what they are meant to say: a valuation satisfies them when it seats
every pigeon in a hole and no two pigeons in the same one. There is such a seating unless the
pigeons outnumber the holes, and the solver finds out which is the case.
-/
namespace Clausal.Encoding.Pigeonhole

/-- Every pigeon sits in a hole, possibly in several, and no hole holds two pigeons. -/
@[mk_iff]
structure IsSeating (pigeons holes : Nat) (sits : Nat → Nat → Prop) : Prop where
  housed : ∀ i < pigeons, ∃ j < holes, sits i j
  alone : ∀ j < holes, ∀ i < pigeons, ∀ k < pigeons, sits i j → sits k j → i = k

variable {pigeons holes : Nat} {sits : Nat → Nat → Prop}

/-- The seating only depends on the pigeons and the holes there are. -/
theorem IsSeating.congr {sits' : Nat → Nat → Prop}
    (same : ∀ i j, j < holes → (sits' i j ↔ sits i j)) (seating : IsSeating pigeons holes sits) :
    IsSeating pigeons holes sits' where
  housed i hi := by
    obtain ⟨j, hj, seated⟩ := seating.housed i hi
    exact ⟨j, hj, (same i j hj).2 seated⟩
  alone j hj i hi k hk seated seated' :=
    seating.alone j hj i hi k hk ((same i j hj).1 seated) ((same k j hj).1 seated')

/-- The holes that are picked for the pigeons differ. -/
theorem IsSeating.pigeons_le (seating : IsSeating pigeons holes sits) : pigeons ≤ holes := by
  choose hole inHoles seated using seating.housed
  have injective : Function.Injective
      fun i : Fin pigeons => (⟨hole i i.isLt, inHoles i i.isLt⟩ : Fin holes) := by
    intro i k same
    have shared : hole i i.isLt = hole k k.isLt := Fin.mk.inj same
    have here := seated i i.isLt
    rw [shared] at here
    exact Fin.ext (seating.alone _ (inHoles k k.isLt) i i.isLt k k.isLt here (seated k k.isLt))
  simpa only [Fintype.card_fin] using Fintype.card_le_of_injective _ injective

theorem exists_isSeating_iff : (∃ sits, IsSeating pigeons holes sits) ↔ pigeons ≤ holes := by
  constructor
  · rintro ⟨sits, seating⟩
    exact seating.pigeons_le
  · intro enough
    refine ⟨Eq, fun i hi => ⟨i, Nat.lt_of_lt_of_le hi enough, rfl⟩, ?_⟩
    rintro j _ i _ k _ rfl rfl
    rfl

theorem var_natCast (holes pigeon hole : Nat) :
    var holes pigeon hole = (cell holes pigeon hole : Int) := by
  simp only [var, cell, Int.natCast_add, Int.natCast_mul, Int.natCast_one]

theorem clauses_natCast (pigeons holes : Nat) :
    clauses pigeons holes =
      ((List.range pigeons).map fun i => (List.range holes).map fun j => (cell holes i j : Int)) ++
        (List.range holes).flatMap fun j =>
          atMostOne ((List.range pigeons).map fun i => (cell holes i j : Int)) := by
  simp only [clauses, below_natCast, List.map_map, List.flatMap_map, Function.comp_def,
    Int.ofNat_eq_natCast, var_natCast]

theorem eq_cell_of_mem {c : List Int} {l : Int} (hc : c ∈ clauses pigeons holes) (hl : l ∈ c) :
    ∃ i < pigeons, ∃ j < holes, l = cell holes i j ∨ l = -(cell holes i j : Int) := by
  rw [clauses_natCast] at hc
  rcases List.mem_append.1 hc with row | column
  · obtain ⟨i, hi, rfl⟩ := List.mem_map.1 row
    obtain ⟨j, hj, rfl⟩ := List.mem_map.1 hl
    exact ⟨i, List.mem_range.1 hi, j, List.mem_range.1 hj, .inl rfl⟩
  · obtain ⟨j, hj, hc⟩ := List.mem_flatMap.1 column
    obtain ⟨i, hi, complement⟩ := List.mem_map.1 (neg_mem_of_mem_atMostOne hc hl)
    refine ⟨i, List.mem_range.1 hi, j, List.mem_range.1 hj, .inr ?_⟩
    rw [complement, Int.neg_neg]

theorem cells_le_length (pigeons holes : Nat) :
    pigeons * holes ≤ (clauses pigeons holes).flatten.length := by
  refine le_length_of_cells fun i hi j hj => ?_
  rw [clauses_natCast]
  refine List.mem_flatten.2
    ⟨_, List.mem_append_left _ (List.mem_map_of_mem (List.mem_range.2 hi)), ?_⟩
  exact List.mem_map_of_mem (List.mem_range.2 hj)

theorem exists_formula (pigeons holes : Nat) :
    ∃ f, Formula.ofLists (clauses pigeons holes) (some (numVariables pigeons holes)) = .ok f ∧
      f.numVariables = pigeons * holes := by
  have size : numVariables pigeons holes = ((pigeons * holes : Nat) : Int) :=
    (Int.natCast_mul pigeons holes).symm
  rw [size]
  exact exists_formula_of_cells fun c hc l hl => eq_cell_of_mem hc hl

theorem holds_clauses_iff (ν : Nat → Bool) :
    (∀ c ∈ clauses pigeons holes, Clause.holds ν c = true) ↔
      IsSeating pigeons holes fun i j => ν (cell holes i j) = true := by
  have housed (i : Nat) :
      Clause.holds ν ((List.range holes).map fun j => (cell holes i j : Int)) = true ↔
        ∃ j < holes, ν (cell holes i j) = true := by
    simp only [Clause.holds_iff, List.mem_map, List.mem_range, exists_exists_and_eq_and, holds_cell]
  have alone (j : Nat) :
      (∀ c ∈ atMostOne ((List.range pigeons).map fun i => (cell holes i j : Int)),
          Clause.holds ν c = true) ↔
        ∀ i < pigeons, ∀ k < pigeons, ν (cell holes i j) = true → ν (cell holes k j) = true →
          i = k := by
    rw [holds_atMostOne_iff List.nodup_range fun i _ => cell_ne_zero holes i j]
    simp only [List.mem_range, holds_cell]
  simp only [isSeating_iff, clauses_natCast, List.forall_mem_append, List.forall_mem_map,
    List.forall_mem_flatMap, List.mem_range, housed, alone]

/-- The clauses are a formula with a variable for each pigeon and hole. If a true variable is read
as the pigeon sitting in the hole, a valuation satisfies the clauses exactly when it is a seating.
So the solver refutes them, under any configuration, exactly when there are more pigeons than
holes. There are as many literals as variables: clauses for which a search finds no room for its
trail would have no room themselves. -/
theorem solve_pigeonhole (pigeons holes : Nat) :
    numVariables pigeons holes = (pigeons * holes : Nat) ∧
    ∃ f, Formula.ofLists (clauses pigeons holes) (some (numVariables pigeons holes)) = .ok f ∧
      f.numVariables = pigeons * holes ∧
      (∀ ν : Nat → Bool, (∀ c ∈ clauses pigeons holes, Clause.holds ν c = true) ↔
        IsSeating pigeons holes fun i j => ν (i * holes + j + 1) = true) ∧
      f.numVariables ≤ (clauses pigeons holes).flatten.length ∧
      ∀ config, f.SolvedWith config fun r => r.verdict = .unsatisfiable ↔ holes < pigeons := by
  obtain ⟨f, accepted, count⟩ := exists_formula pigeons holes
  refine ⟨(Int.natCast_mul pigeons holes).symm, f, accepted, count, holds_clauses_iff,
    count ▸ cells_le_length pigeons holes, fun config => ?_⟩
  have satisfiable : (∃ ν, ∀ c ∈ clauses pigeons holes, Clause.holds ν c = true) ↔
      pigeons ≤ holes := by
    simp only [holds_clauses_iff]
    rw [← exists_isSeating_iff]
    constructor
    · rintro ⟨ν, seating⟩
      exact ⟨_, seating⟩
    · rintro ⟨sits, seating⟩
      obtain ⟨ν, reads⟩ := exists_valuation holes sits
      exact ⟨ν, seating.congr reads⟩
  refine (Formula.solve_ofLists accepted config).imp fun r decided => ?_
  rw [decided.2, satisfiable, Nat.not_le]

end Clausal.Encoding.Pigeonhole

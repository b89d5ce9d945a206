import Clausal.Encoding.AtMostOne
import Clausal.Proofs.Reading
import Mathlib.Data.List.Nodup
import Mathlib.Data.List.Perm.Subperm

/-!
What the encodings have in common. Their variables form a grid and are numbered row by row from 1
on, so that a valuation can be read as a relation between rows and columns, and any relation is read
from some valuation. Clauses over these variables are a formula. The pairwise clauses over some
literals hold where no two of them are true.
-/
namespace Clausal.Encoding

theorem below_natCast (n : Nat) : below n = (List.range n).map Int.ofNat :=
  rfl

section Grid

variable {width height row column : Nat}

/-- The variable of a cell. Rows and columns are counted from 0. -/
def cell (width row column : Nat) : Nat := row * width + column + 1

theorem one_le_cell (width row column : Nat) : 1 ≤ cell width row column :=
  Nat.le_add_left 1 _

theorem cell_le (inHeight : row < height) (inWidth : column < width) :
    cell width row column ≤ height * width := by
  have full : (row + 1) * width ≤ height * width := Nat.mul_le_mul_right width inHeight
  rw [Nat.succ_mul] at full
  rw [cell]
  omega

theorem div_cell (inWidth : column < width) : (cell width row column - 1) / width = row := by
  rw [cell, Nat.add_sub_cancel, Nat.add_comm, Nat.add_mul_div_right _ _ (by omega),
    Nat.div_eq_of_lt inWidth, Nat.zero_add]

theorem mod_cell (inWidth : column < width) : (cell width row column - 1) % width = column := by
  rw [cell, Nat.add_sub_cancel, Nat.mul_add_mod_of_lt inWidth]

/-- Every variable of the grid is that of a cell. -/
theorem exists_cell {v : Nat} (positive : 1 ≤ v) (inside : v ≤ height * width) :
    ∃ row < height, ∃ column < width, v = cell width row column := by
  have bound : v - 1 < width * height := by
    rw [Nat.mul_comm width height]
    omega
  have some_ : 0 < width := Nat.pos_of_mul_pos_right (Nat.zero_lt_of_lt bound)
  refine ⟨(v - 1) / width, Nat.div_lt_of_lt_mul bound, (v - 1) % width, Nat.mod_lt _ some_, ?_⟩
  rw [cell, Nat.mul_comm, Nat.div_add_mod]
  omega

theorem cell_ne_zero (width row column : Nat) : (cell width row column : Int) ≠ 0 :=
  Int.natCast_ne_zero.2 (Nat.one_le_iff_ne_zero.1 (one_le_cell width row column))

theorem holds_cell (ν : Nat → Bool) (width row column : Nat) :
    Literal.holds ν (cell width row column : Int) = ν (cell width row column) :=
  Literal.holds_natCast (one_le_cell width row column) ν

/-- Clauses over the variables of a grid are a formula with as many variables. -/
theorem exists_formula_of_cells {clauses : List (List Int)}
    (cells : ∀ c ∈ clauses, ∀ l ∈ c, ∃ row < height, ∃ column < width,
      l = cell width row column ∨ l = -(cell width row column : Int)) :
    ∃ f, Formula.ofLists clauses (some ((height * width : Nat) : Int)) = .ok f ∧
      f.numVariables = height * width := by
  have nonzero : ∀ c ∈ clauses, ∀ l ∈ c, l ≠ 0 := by
    intro c hc l hl
    obtain ⟨row, _, column, _, rfl | rfl⟩ := cells c hc l hl
    · exact cell_ne_zero width row column
    · exact Int.neg_ne_zero.2 (cell_ne_zero width row column)
  have fits : ∀ n ∈ some (height * width), ∀ c ∈ clauses, ∀ l ∈ c, Literal.var l ≤ n := by
    rintro n ⟨⟩ c hc l hl
    obtain ⟨row, inHeight, column, inWidth, rfl | rfl⟩ := cells c hc l hl
    · simpa only [Literal.var_natCast] using cell_le inHeight inWidth
    · simpa only [Literal.var_neg, Literal.var_natCast] using cell_le inHeight inWidth
  obtain ⟨f, accepted⟩ := Formula.exists_ofLists nonzero fits
  exact ⟨f, accepted, (Formula.ofLists_eq_ok accepted).2.2 _ rfl⟩

/-- Clauses that name every cell hold at least as many literals as there are cells. -/
theorem le_length_of_cells {clauses : List (List Int)}
    (named : ∀ row < height, ∀ column < width,
      (cell width row column : Int) ∈ clauses.flatten) :
    height * width ≤ clauses.flatten.length := by
  let cells : List Int := (List.range' 1 (height * width)).map Nat.cast
  have distinct : cells.Nodup := (List.nodup_range').map fun _ _ => Int.ofNat.inj
  have inside : cells ⊆ clauses.flatten := by
    intro l hl
    obtain ⟨v, hv, rfl⟩ := List.mem_map.1 hl
    obtain ⟨low, high⟩ := List.mem_range'_1.1 hv
    rw [Nat.add_comm, Nat.lt_succ_iff] at high
    obtain ⟨row, inHeight, column, inWidth, rfl⟩ := exists_cell low high
    exact named row inHeight column inWidth
  simpa [cells] using (List.subperm_of_subset distinct inside).length_le

/-- No two cells share a variable, so the values of all cells can be chosen freely. -/
theorem exists_valuation (width : Nat) (filled : Nat → Nat → Prop) :
    ∃ ν : Nat → Bool, ∀ row column, column < width →
      (ν (cell width row column) = true ↔ filled row column) := by
  classical
  -- Quotient and remainder lead from a variable back to its cell.
  refine ⟨fun v => decide (filled ((v - 1) / width) ((v - 1) % width)), ?_⟩
  intro row column inWidth
  rw [decide_eq_true_iff, div_cell inWidth, mod_cell inWidth]

end Grid

section AtMostOne

variable {ν : Nat → Bool} {l : Int} {ls : List Int} {c : List Int}

theorem neg_mem_of_mem_atMostOne (hc : c ∈ atMostOne ls) (hl : l ∈ c) : -l ∈ ls := by
  induction ls with
  | nil => cases hc
  | cons k ls ih =>
      rcases List.mem_append.1 hc with first | later
      · obtain ⟨m, hm, rfl⟩ := List.mem_map.1 first
        rcases List.mem_pair.1 hl with rfl | rfl
        · simp only [Int.neg_neg, List.mem_cons_self]
        · simp only [Int.neg_neg, List.mem_cons_of_mem k hm]
      · exact List.mem_cons_of_mem k (ih later)

theorem holds_pair_iff {k : Int} (hk : k ≠ 0) (hl : l ≠ 0) :
    Clause.holds ν [-k, -l] = true ↔
      ¬(Literal.holds ν k = true ∧ Literal.holds ν l = true) := by
  simp only [Clause.holds, List.any_cons, List.any_nil, Literal.holds_neg hk, Literal.holds_neg hl]
  cases Literal.holds ν k <;> cases Literal.holds ν l <;> decide

/-- The clauses over the literals of distinct things hold where the literal of only one is true. -/
theorem holds_atMostOne_iff {α : Type} {xs : List α} {literal : α → Int} (distinct : xs.Nodup)
    (nonzero : ∀ x ∈ xs, literal x ≠ 0) :
    (∀ c ∈ atMostOne (xs.map literal), Clause.holds ν c = true) ↔
      ∀ x ∈ xs, ∀ y ∈ xs, Literal.holds ν (literal x) = true →
        Literal.holds ν (literal y) = true → x = y := by
  induction xs with
  | nil => exact iff_of_true nofun nofun
  | cons x xs ih =>
      obtain ⟨fresh, distinct⟩ := List.nodup_cons.1 distinct
      obtain ⟨first, later⟩ := List.forall_mem_cons.1 nonzero
      have pairs : (∀ c ∈ (xs.map literal).map (fun k => [-literal x, -k]),
          Clause.holds ν c = true) ↔ ∀ y ∈ xs,
            ¬(Literal.holds ν (literal x) = true ∧ Literal.holds ν (literal y) = true) := by
        simp only [List.forall_mem_map]
        exact forall₂_congr fun y hy => holds_pair_iff first (later y hy)
      rw [List.map_cons, atMostOne, List.forall_mem_append, pairs, ih distinct later]
      constructor
      · rintro ⟨apart, rest⟩ y memY z memZ true_ true'
        rcases List.mem_cons.1 memY with rfl | hy <;> rcases List.mem_cons.1 memZ with rfl | hz
        · rfl
        · exact absurd ⟨true_, true'⟩ (apart z hz)
        · exact absurd ⟨true', true_⟩ (apart y hy)
        · exact rest y hy z hz true_ true'
      · intro only
        refine ⟨?_, fun y hy z hz => only y (.tail x hy) z (.tail x hz)⟩
        rintro y hy ⟨true_, true'⟩
        have same := only x (.head xs) y (.tail x hy) true_ true'
        exact fresh (same ▸ hy)

end AtMostOne

end Clausal.Encoding

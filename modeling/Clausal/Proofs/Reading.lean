import Mathlib.Data.List.Forall2
import Clausal.Proofs.Literal

/-!
Formulas against the data they are read from. Data that is accepted lists clauses of integers, and
the formula has the same clauses up to repeated literals, so the same valuations make both true.
-/
namespace Clausal

/-- The data is a collection of collections of integers. -/
def Datum.Lists (data : Datum) (clauses : List (List Int)) : Prop :=
  ∃ items, data.elements? = some items ∧
    List.Forall₂ (fun item (c : List Int) => item.elements? = some (c.map .integer)) items clauses

theorem Datum.Lists.unique {data : Datum} {clauses others : List (List Int)}
    (h : data.Lists clauses) (h' : data.Lists others) : clauses = others := by
  obtain ⟨items, elements, shown⟩ := h
  obtain ⟨_, elements', shown'⟩ := h'
  cases elements.symm.trans elements'
  clear elements elements'
  induction shown generalizing others with
  | nil =>
      cases shown'
      rfl
  | cons first _ ih =>
      cases shown' with
      | cons first' later =>
          have same := Option.some.inj (first.symm.trans first')
          rw [List.map_injective_iff.2 (fun _ _ => Datum.integer.inj) same, ih later]

theorem Datum.lists_integers (clauses : List (List Int)) :
    Datum.Lists (.list (clauses.map fun c => .list (c.map .integer))) clauses :=
  ⟨_, rfl, List.forall₂_map_left_iff.2 (List.forall₂_same.2 fun _ _ => rfl)⟩

namespace Clause

theorem normalize_of_nodup {c : Clause} (h : c.Nodup) : normalize c = c := by
  induction c with
  | nil => rfl
  | cons l c ih =>
      obtain ⟨fresh, later⟩ := List.nodup_cons.1 h
      have others : (c.filter fun k => !k == l) = c := by
        refine List.filter_eq_self.2 fun k hk => ?_
        have different : k ≠ l := fun same => fresh (same ▸ hk)
        simp [different]
      rw [normalize, List.eraseDups_cons, others]
      exact congrArg (l :: ·) (ih later)

theorem holds_normalize (ν : Nat → Bool) (literals : List Int) :
    holds ν (normalize literals) = holds ν literals := by
  rw [Bool.eq_iff_iff, holds_iff, holds_iff]
  simp only [mem_normalize]

theorem satisfiedBy_normalize (α : Nat → Option Bool) (literals : List Int) :
    satisfiedBy α (normalize literals) = satisfiedBy α literals := by
  rw [Bool.eq_iff_iff, satisfiedBy_iff, satisfiedBy_iff]
  simp only [mem_normalize]

end Clause

namespace Formula

variable {f : Formula} {clauses : List (List Int)}

theorem eq_of_readLiteral {i : Nat} {item : Datum} {l : Literal}
    (h : readLiteral i item = .ok l) : item = .integer l := by
  cases item with
  | integer n =>
      rw [readLiteral] at h
      split at h
      · cases h
      · cases h
        rfl
  | _ => cases h

theorem eq_of_readLiterals {i : Nat} {items : List Datum} {ls : List Literal}
    (h : readLiterals i items = .ok ls) : items = ls.map .integer := by
  induction items generalizing ls with
  | nil =>
      cases h
      rfl
  | cons item items ih =>
      rw [readLiterals] at h
      split at h
      · cases h
      · rename_i l first
        split at h
        · cases h
        · rename_i rest later
          cases h
          rw [List.map_cons, ← eq_of_readLiteral first, ← ih later]

theorem lists_of_readClauses {i : Nat} {items : List Datum}
    (h : readClauses i items = .ok clauses) :
    List.Forall₂ (fun item (c : List Int) => item.elements? = some (c.map .integer)) items
      clauses := by
  induction items generalizing i clauses with
  | nil =>
      cases h
      exact .nil
  | cons item items ih =>
      rw [readClauses] at h
      split at h
      · cases h
      · rename_i parts elements
        split at h
        · cases h
        · rename_i ls first
          split at h
          · cases h
          · rename_i rest later
            cases h
            exact .cons (by rw [elements, eq_of_readLiterals first]) (ih later)

theorem ofData_eq_ok {data count : Datum} (h : ofData data count = .ok f) :
    ∃ clauses, data.Lists clauses ∧ readCount clauses count = .ok f.numVariables ∧
      f.clauses = clauses.map Clause.normalize := by
  rw [ofData] at h
  split at h
  · cases h
  · rename_i items elements
    split at h
    · cases h
    · rename_i given read
      split at h
      · cases h
      · rename_i n counted
        split at h
        · cases h
        · cases h
          exact ⟨given, ⟨items, elements, lists_of_readClauses read⟩, counted, rfl⟩

theorem readCount_natCast (clauses : List (List Int)) (n : Nat) :
    readCount clauses (.integer n) = .ok n := by
  rw [readCount, if_neg (Int.not_lt.2 (Int.natCast_nonneg n)), Int.toNat_natCast]

theorem ofData_spec {data : Datum} {n : Nat} (h : ofData data (.integer n) = .ok f) :
    ∃ clauses, data.Lists clauses ∧ f.numVariables = n ∧
      f.clauses = clauses.map Clause.normalize := by
  obtain ⟨clauses, lists, counted, same⟩ := ofData_eq_ok h
  rw [readCount_natCast] at counted
  cases counted
  exact ⟨clauses, lists, rfl, same⟩

theorem ofLists_eq_ok {count : Option Int} (h : ofLists clauses count = .ok f) :
    f.clauses = clauses.map Clause.normalize ∧
      (count = none → f.numVariables = largestVariable clauses) ∧
      ∀ n : Nat, count = some (n : Int) → f.numVariables = n := by
  obtain ⟨given, lists, counted, same⟩ := ofData_eq_ok h
  cases lists.unique (Datum.lists_integers clauses)
  refine ⟨same, ?_, ?_⟩
  · rintro rfl
    exact (Except.ok.inj counted).symm
  · rintro n rfl
    exact (Except.ok.inj ((readCount_natCast clauses n).symm.trans counted)).symm

theorem largestVariable_lt {bound : Nat} (positive : 0 < bound)
    (h : ∀ c ∈ clauses, ∀ l ∈ c, Literal.var l < bound) : largestVariable clauses < bound := by
  have fold (ls : List Literal) (small : ∀ l ∈ ls, Literal.var l < bound) (n : Nat)
      (start : n < bound) : ls.foldl (fun n l => max n (Literal.var l)) n < bound := by
    induction ls generalizing n with
    | nil => exact start
    | cons l ls ih =>
        obtain ⟨first, later⟩ := List.forall_mem_cons.1 small
        exact ih later _ (Nat.max_lt.2 ⟨start, first⟩)
  refine fold clauses.flatten (fun l hl => ?_) 0 positive
  obtain ⟨c, hc, hl⟩ := List.mem_flatten.1 hl
  exact h c hc l hl

theorem readLiterals_integers {c : List Int} (h : ∀ l ∈ c, l ≠ 0) (i : Nat) :
    readLiterals i (c.map .integer) = .ok c := by
  induction c with
  | nil => rfl
  | cons l c ih =>
      obtain ⟨first, later⟩ := List.forall_mem_cons.1 h
      rw [List.map_cons, readLiterals, readLiteral, if_neg first, ih later]

theorem readClauses_integers (h : ∀ c ∈ clauses, ∀ l ∈ c, l ≠ 0) (i : Nat) :
    readClauses i (clauses.map fun c => .list (c.map .integer)) = .ok clauses := by
  induction clauses generalizing i with
  | nil => rfl
  | cons c clauses ih =>
      obtain ⟨first, later⟩ := List.forall_mem_cons.1 h
      rw [List.map_cons, readClauses, Datum.elements?]
      dsimp only
      rw [readLiterals_integers first, ih later]

theorem findOutside?_eq_none {count : Nat} (h : ∀ c ∈ clauses, ∀ l ∈ c, Literal.var l ≤ count)
    (i : Nat) : findOutside? count i clauses = none := by
  induction clauses generalizing i with
  | nil => rfl
  | cons c clauses ih =>
      obtain ⟨first, later⟩ := List.forall_mem_cons.1 h
      have inside : (c.find? fun l => count < Literal.var l) = none :=
        List.find?_eq_none.2 fun l hl => by simpa using first l hl
      rw [findOutside?, inside]
      exact ih later (i + 1)

theorem var_le_largestVariable {c : List Int} {l : Int} (hc : c ∈ clauses) (hl : l ∈ c) :
    Literal.var l ≤ largestVariable clauses := by
  have fold (ls : List Literal) (n : Nat) :
      n ≤ ls.foldl (fun n l => max n (Literal.var l)) n ∧
        ∀ l ∈ ls, Literal.var l ≤ ls.foldl (fun n l => max n (Literal.var l)) n := by
    induction ls generalizing n with
    | nil => exact ⟨Nat.le_refl n, nofun⟩
    | cons k ls ih =>
        obtain ⟨start, later⟩ := ih (max n (Literal.var k))
        refine ⟨Nat.le_trans (Nat.le_max_left _ _) start, List.forall_mem_cons.2 ⟨?_, later⟩⟩
        exact Nat.le_trans (Nat.le_max_right _ _) start
  exact (fold clauses.flatten 0).2 l (List.mem_flatten.2 ⟨c, hc, hl⟩)

theorem exists_ofData {count : Datum} {n : Nat} (nonzero : ∀ c ∈ clauses, ∀ l ∈ c, l ≠ 0)
    (counted : readCount clauses count = .ok n)
    (fits : ∀ c ∈ clauses, ∀ l ∈ c, Literal.var l ≤ n) :
    ∃ f, ofData (.list (clauses.map fun c => .list (c.map .integer))) count = .ok f := by
  have read := readClauses_integers nonzero 0
  have inside := findOutside?_eq_none fits 0
  rw [ofData]
  split
  · rename_i none_
    cases none_
  · rename_i items elements
    cases elements
    split
    · rename_i e refused
      cases read.symm.trans refused
    · rename_i given accepted
      cases read.symm.trans accepted
      rw [counted]
      dsimp only
      split
      · rename_i i l outside
        cases inside.symm.trans outside
      · exact ⟨_, rfl⟩

/-- Clauses without a 0 are accepted, unless a count is given that is too small for them. -/
theorem exists_ofLists {count : Option Nat} (nonzero : ∀ c ∈ clauses, ∀ l ∈ c, l ≠ 0)
    (fits : ∀ n ∈ count, ∀ c ∈ clauses, ∀ l ∈ c, Literal.var l ≤ n) :
    ∃ f, ofLists clauses (count.map Nat.cast) = .ok f := by
  cases count with
  | none => exact exists_ofData nonzero rfl fun c hc l hl => var_le_largestVariable hc hl
  | some n => exact exists_ofData nonzero (readCount_natCast clauses n) (fits n rfl)

/-- A formula is read back from its own clauses. -/
theorem ofLists_clauses (f : Formula) : ofLists f.clauses (some f.numVariables) = .ok f := by
  have fits : ∀ n ∈ some f.numVariables, ∀ c ∈ f.clauses, ∀ l ∈ c, Literal.var l ≤ n :=
    fun n same c hc l hl => Option.some.inj same ▸ f.var_le_of_mem hc hl
  obtain ⟨g, read⟩ := exists_ofLists (fun c hc l hl => f.ne_zero_of_mem hc hl) fits
  obtain ⟨clauses, _, counted⟩ := ofLists_eq_ok read
  have whole : f.clauses.map Clause.normalize = f.clauses :=
    (List.map_congr_left fun c hc => Clause.normalize_of_nodup (f.nodup c hc)).trans
      (List.map_id' f.clauses)
  rw [whole] at clauses
  have count : g.numVariables = f.numVariables := counted f.numVariables rfl
  have same : g = f := by
    cases f
    cases g
    cases clauses
    cases count
    rfl
  exact same ▸ read

theorem holds_of_clauses_eq (h : f.clauses = clauses.map Clause.normalize) {ν : Nat → Bool} :
    f.holds ν = true ↔ ∀ c ∈ clauses, Clause.holds ν c = true := by
  simp [holds, h, Clause.holds_normalize]

theorem satisfiedBy_of_clauses_eq (h : f.clauses = clauses.map Clause.normalize)
    {α : Nat → Option Bool} :
    f.satisfiedBy α = true ↔ ∀ c ∈ clauses, Clause.satisfiedBy α c = true := by
  simp [satisfiedBy, h, Clause.satisfiedBy_normalize]

end Formula

end Clausal

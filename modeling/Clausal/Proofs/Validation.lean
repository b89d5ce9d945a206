import Clausal.Proofs.Branching.Polarity
import Clausal.Proofs.Reading
import Clausal.Proofs.Text.Integer
import Mathlib.Data.List.Induction
import Mathlib.Order.Bounds.Basic

/-!
Which data is a formula. Data is accepted exactly when all it lists are literals and the count, if
there is one, is enough for them. A refusal is for the first thing that is wrong, where literals
come before the count and the count before the range of the literals. What is accepted keeps its
meaning and loses repeated literals only.
-/
namespace Clausal

/-- A nonzero integer; a truth value is not an integer. -/
def Datum.IsLiteral (item : Datum) : Prop := ∃ l : Int, item = .integer l ∧ l ≠ 0

theorem Datum.isDescribable_of_mem {item : Datum} {items : List Datum}
    (h : (Datum.list items).isDescribable = true) (hitem : item ∈ items) :
    item.isDescribable = true := by
  rw [isDescribable] at h
  induction items with
  | nil => cases hitem
  | cons first items ih =>
      rw [areDescribable, Bool.and_eq_true] at h
      rcases List.mem_cons.1 hitem with rfl | hitem
      · exact h.1
      · exact ih h.2 hitem

/-- Reading row by row, `x` in row `i` is the first item that is not good. -/
inductive FirstFailure {α : Type} (good : α → Prop) : List (List α) → Nat → α → Prop
  | here {x : α} {earlier later : List α} {rows : List (List α)} :
      (∀ y ∈ earlier, good y) → ¬good x →
        FirstFailure good ((earlier ++ x :: later) :: rows) 0 x
  | behind {x : α} {row : List α} {rows : List (List α)} {i : Nat} :
      (∀ y ∈ row, good y) → FirstFailure good rows i x →
        FirstFailure good (row :: rows) (i + 1) x

theorem FirstFailure.exists_mem {α : Type} {good : α → Prop} {rows : List (List α)} {i : Nat}
    {x : α} (h : FirstFailure good rows i x) : ∃ row ∈ rows, x ∈ row ∧ ¬good x := by
  induction h with
  | here _ fails => exact ⟨_, List.mem_cons_self, by simp, fails⟩
  | behind _ _ ih =>
      obtain ⟨row, hrow, found⟩ := ih
      exact ⟨row, List.mem_cons_of_mem _ hrow, found⟩

/-- The literals where they stand for the first time, in their order. -/
def Clause.firstOccurrences (literals : List Int) : Clause :=
  (literals.zipIdx.filter fun (l, i) => l ∉ literals.take i).map Prod.fst

theorem Clause.firstOccurrences_append (literals : List Int) (l : Int) :
    firstOccurrences (literals ++ [l]) =
      firstOccurrences literals ++ if l ∈ literals then [] else [l] := by
  have start : ((literals.zipIdx).filter fun (k, i) => k ∉ (literals ++ [l]).take i) =
      (literals.zipIdx).filter fun (k, i) => k ∉ literals.take i := by
    apply List.filter_congr
    rintro ⟨k, i⟩ hk
    have inside : i ≤ literals.length := by have := (List.mem_zipIdx hk).2.1; omega
    simp only [List.take_append_of_le_length inside]
  rw [firstOccurrences, firstOccurrences, List.zipIdx_append, List.filter_append, List.map_append,
    start]
  by_cases repeated : l ∈ literals <;> simp [repeated]

theorem Clause.normalize_eq_firstOccurrences (literals : List Int) :
    normalize literals = firstOccurrences literals := by
  induction literals using List.reverseRecOn with
  | nil => rfl
  | append_singleton literals l ih =>
      rw [firstOccurrences_append, ← ih, normalize, List.eraseDups_append, ← normalize]
      by_cases repeated : l ∈ literals <;> simp [List.removeAll, List.eraseDups_cons, repeated]

namespace FormulaError

/-- What the error says about the data. The count is looked at once all that is listed are literals,
and literals are only out of range of a count that is given. -/
inductive Blames (rows : List (List Datum)) (count : Datum) : FormulaError → Prop
  | literalNotInteger {i : Nat} {item : Datum} :
      FirstFailure Datum.IsLiteral rows i item → (∀ n, item ≠ .integer n) →
        Blames rows count (.literalNotInteger i item)
  | literalZero {i : Nat} :
      FirstFailure Datum.IsLiteral rows i (.integer 0) → Blames rows count (.literalZero i)
  | countNotInteger :
      (∀ row ∈ rows, ∀ item ∈ row, item.IsLiteral) → count ≠ .null → (∀ n, count ≠ .integer n) →
        Blames rows count (.countNotInteger count)
  | countNegative {n : Int} :
      (∀ row ∈ rows, ∀ item ∈ row, item.IsLiteral) → count = .integer n → n < 0 →
        Blames rows count (.countNegative n)
  | literalOutside {i n : Nat} {l : Int} {given : List (List Int)} :
      rows = given.map (List.map .integer) → (∀ c ∈ given, ∀ l ∈ c, l ≠ 0) →
        count = .integer n → FirstFailure (fun l => Literal.var l ≤ n) given i l →
        Blames rows count (.literalOutside i l n)

end FormulaError

namespace Formula

/-- All that is listed are literals, and the count is missing or enough for them. -/
structure IsWellFormed (rows : List (List Datum)) (count : Datum) : Prop where
  literals : ∀ row ∈ rows, ∀ item ∈ row, item.IsLiteral
  count : count = .null ∨ ∃ n : Nat, count = .integer n ∧
    ∀ row ∈ rows, ∀ l : Int, .integer l ∈ row → l.natAbs ≤ n

/-- The formula has the clauses as given without later repetitions, and the count as given or the
largest variable in use. Under every assignment it has the truth of the given clauses; its scores
count its clauses, and it is read back from its own clauses and count. -/
structure Reads (f : Formula) (given : List (List Int)) (count : Datum) : Prop where
  clauses : f.clauses = given.map Clause.firstOccurrences
  inferred : count = .null →
    IsGreatest (insert 0 {v | ∃ c ∈ given, ∃ l ∈ c, Literal.var l = v}) f.numVariables
  declared : ∀ n : Int, count = .integer n → (f.numVariables : Int) = n
  satisfiedBy_iff : ∀ α, f.satisfiedBy α = true ↔
    ∀ c ∈ given, ∃ l ∈ c, α (Literal.var l) = some (Literal.isPositive l)
  scores : ∀ (v : Nat) (score : Int), f.polarityScores.lookup v = some score ↔
    (∃ c ∈ f.clauses, (v : Int) ∈ c ∨ -(v : Int) ∈ c) ∧
      score = (f.clauses.countP ((v : Int) ∈ ·) : Int) - f.clauses.countP (-(v : Int) ∈ ·)
  reread : ofLists f.clauses (some f.numVariables) = .ok f

variable {f : Formula} {rows : List (List Datum)} {given : List (List Int)} {count item : Datum}
  {items : List Datum} {e : FormulaError} {i : Nat}

theorem isLiteral_of_readLiteral {l : Literal} (h : readLiteral i item = .ok l) :
    item.IsLiteral := by
  cases eq_of_readLiteral h
  rw [readLiteral] at h
  split at h
  · cases h
  · rename_i nonzero
    exact ⟨l, rfl, nonzero⟩

theorem not_isLiteral_of_readLiteral (h : readLiteral i item = .error e) : ¬item.IsLiteral := by
  rintro ⟨l, rfl, nonzero⟩
  rw [readLiteral, if_neg nonzero] at h
  cases h

theorem isLiteral_of_readLiterals {ls : List Literal} (h : readLiterals i items = .ok ls) :
    ∀ item ∈ items, item.IsLiteral := by
  intro item hitem
  rw [eq_of_readLiterals h] at hitem
  obtain ⟨l, hl, rfl⟩ := List.mem_map.1 hitem
  exact ⟨l, rfl, ne_zero_of_readLiterals h l hl⟩

theorem exists_of_readLiterals (h : readLiterals i items = .error e) :
    ∃ earlier item later, items = earlier ++ item :: later ∧
      (∀ d ∈ earlier, d.IsLiteral) ∧ readLiteral i item = .error e := by
  induction items with
  | nil => cases h
  | cons item items ih =>
      rw [readLiterals] at h
      split at h
      · rename_i refused
        cases h
        exact ⟨[], item, items, rfl, List.forall_mem_nil _, refused⟩
      · rename_i l first
        split at h
        · rename_i refused
          cases h
          obtain ⟨earlier, found, later, rfl, good, failed⟩ := ih refused
          exact ⟨item :: earlier, found, later, rfl,
            List.forall_mem_cons.2 ⟨isLiteral_of_readLiteral first, good⟩, failed⟩
        · cases h

theorem firstFailure_of_readClauses (h : readClauses i (rows.map .list) = .error e) :
    ∃ j item, FirstFailure Datum.IsLiteral rows j item ∧
      readLiteral (i + j) item = .error e := by
  induction rows generalizing i with
  | nil => cases h
  | cons row rows ih =>
      rw [List.map_cons, readClauses, Datum.elements?] at h
      dsimp only at h
      split at h
      · rename_i refused
        cases h
        obtain ⟨earlier, item, later, rfl, good, failed⟩ := exists_of_readLiterals refused
        exact ⟨0, item, .here good (not_isLiteral_of_readLiteral failed), failed⟩
      · rename_i ls read
        split at h
        · rename_i refused
          cases h
          obtain ⟨j, item, first, failed⟩ := ih refused
          refine ⟨j + 1, item, .behind (isLiteral_of_readLiterals read) first, ?_⟩
          rwa [Nat.add_right_comm] at failed
        · cases h

theorem blames_of_readClauses (h : readClauses 0 (rows.map .list) = .error e) :
    e.Blames rows count := by
  obtain ⟨j, item, first, failed⟩ := firstFailure_of_readClauses h
  rw [Nat.zero_add] at failed
  cases item with
  | integer n =>
      rw [readLiteral] at failed
      split at failed
      · rename_i zero
        cases failed
        exact .literalZero (zero ▸ first)
      · cases failed
  | _ =>
      cases failed
      refine .literalNotInteger first fun n same => ?_
      cases same

theorem readCount_eq_ok {n : Nat} (h : readCount given count = .ok n) :
    count = .null ∧ n = largestVariable given ∨ count = .integer n := by
  cases count with
  | null => exact .inl ⟨rfl, (Except.ok.inj h).symm⟩
  | integer m =>
      rw [readCount] at h
      split at h
      · cases h
      · cases h
        exact .inr (by rw [Int.toNat_of_nonneg (by omega)])
  | _ => cases h

theorem blames_of_readCount (literals : ∀ row ∈ rows, ∀ item ∈ row, item.IsLiteral)
    (h : readCount given count = .error e) : e.Blames rows count := by
  cases count with
  | null => cases h
  | integer n =>
      rw [readCount] at h
      split at h
      · rename_i negative
        cases h
        exact .countNegative literals rfl negative
      · cases h
  | _ =>
      cases h
      refine .countNotInteger literals (fun same => ?_) fun n same => ?_
      · cases same
      · cases same

theorem firstFailure_of_findOutside? {n start : Nat} {l : Int}
    (h : findOutside? n start given = some (i, l)) :
    ∃ j, i = start + j ∧ FirstFailure (fun l => Literal.var l ≤ n) given j l := by
  induction given generalizing start with
  | nil => cases h
  | cons c given ih =>
      rw [findOutside?] at h
      split at h
      · rename_i found
        cases h
        obtain ⟨outside, earlier, later, rfl, inside⟩ := List.find?_eq_some_iff_append.1 found
        exact ⟨0, rfl, .here (by simpa using inside) (by simpa using outside)⟩
      · rename_i inside
        obtain ⟨j, rfl, first⟩ := ih h
        refine ⟨j + 1, Nat.add_right_comm start 1 j, .behind ?_ first⟩
        simpa using List.find?_eq_none.1 inside

theorem rows_eq_of_lists (h : Datum.Lists (.list (rows.map .list)) given) :
    rows = given.map (List.map .integer) := by
  obtain ⟨items, elements, shown⟩ := h
  cases elements
  rw [List.forall₂_map_left_iff] at shown
  have same : List.Forall₂ Eq rows (given.map (List.map .integer)) :=
    List.forall₂_map_right_iff.2 (shown.imp fun _ _ => Option.some.inj)
  rwa [List.forall₂_eq_eq_eq] at same

theorem isLiteral_of_ne_zero (nonzero : ∀ c ∈ given, ∀ l ∈ c, l ≠ 0) :
    ∀ row ∈ given.map (List.map .integer), ∀ item ∈ row, Datum.IsLiteral item := by
  simp only [List.forall_mem_map]
  intro c hc l hl
  exact ⟨l, rfl, nonzero c hc l hl⟩

/-- A refusal is for the first thing that is wrong. -/
theorem blames_of_ofData (h : ofData (.list (rows.map .list)) count = .error e) :
    e.Blames rows count := by
  rw [ofData] at h
  split at h
  · rename_i none_
    cases none_
  · rename_i items elements
    cases elements
    split at h
    · rename_i refused
      cases h
      exact blames_of_readClauses refused
    · rename_i given read
      have nonzero := ne_zero_of_readClauses read
      have same : rows = given.map (List.map .integer) :=
        rows_eq_of_lists ⟨_, rfl, lists_of_readClauses read⟩
      have literals : ∀ row ∈ rows, ∀ item ∈ row, Datum.IsLiteral item :=
        same ▸ isLiteral_of_ne_zero nonzero
      split at h
      · rename_i refused
        cases h
        exact blames_of_readCount literals refused
      · rename_i n counted
        split at h
        · rename_i i l outside
          cases h
          obtain ⟨j, rfl, first⟩ := firstFailure_of_findOutside? outside
          rw [Nat.zero_add]
          rcases readCount_eq_ok counted with ⟨rfl, rfl⟩ | rfl
          · obtain ⟨c, hc, hl, beyond⟩ := first.exists_mem
            exact absurd (var_le_largestVariable hc hl) beyond
          · exact .literalOutside same nonzero rfl first
        · cases h

theorem isGreatest_largestVariable (given : List (List Int)) :
    IsGreatest (insert 0 {v | ∃ c ∈ given, ∃ l ∈ c, Literal.var l = v})
      (largestVariable given) := by
  constructor
  · by_contra missed
    rw [Set.mem_insert_iff, not_or] at missed
    obtain ⟨positive, unused⟩ := missed
    -- A largest variable that no literal has would be greater than all that they have.
    have below : ∀ c ∈ given, ∀ l ∈ c, Literal.var l < largestVariable given := by
      intro c hc l hl
      have other : Literal.var l ≠ largestVariable given := fun same => unused ⟨c, hc, l, hl, same⟩
      have := var_le_largestVariable hc hl
      omega
    exact Nat.lt_irrefl _ (largestVariable_lt (Nat.pos_of_ne_zero positive) below)
  · rintro v (rfl | ⟨c, hc, l, hl, rfl⟩)
    · exact Nat.zero_le _
    · exact var_le_largestVariable hc hl

theorem reads_of_ofData (h : ofData (.list (rows.map .list)) count = .ok f) :
    ∃ given, rows = given.map (List.map .integer) ∧ f.Reads given count := by
  obtain ⟨given, lists, counted, same⟩ := ofData_eq_ok h
  refine ⟨given, rows_eq_of_lists lists, ?_, ?_, ?_, ?_, ?_, ofLists_clauses f⟩
  · rw [same]
    exact List.map_congr_left fun c _ => Clause.normalize_eq_firstOccurrences c
  · rintro rfl
    rw [← Except.ok.inj counted]
    exact isGreatest_largestVariable given
  · rintro n rfl
    rcases readCount_eq_ok counted with ⟨null, _⟩ | declared
    · cases null
    · exact (Datum.integer.inj declared).symm
  · intro α
    simp only [satisfiedBy_of_clauses_eq same, Clause.satisfiedBy_iff]
  · intro v score
    exact lookup_polarityScores_iff

theorem isWellFormed_of_ofData (h : ofData (.list (rows.map .list)) count = .ok f) :
    IsWellFormed rows count := by
  obtain ⟨given, lists, counted, same⟩ := ofData_eq_ok h
  have inRange : ∀ c ∈ given, ∀ l ∈ c, l ≠ 0 ∧ Literal.var l ≤ f.numVariables := by
    intro c hc l hl
    have kept : Clause.normalize c ∈ f.clauses := same ▸ List.mem_map_of_mem hc
    exact f.inRange _ kept l (Clause.mem_normalize.2 hl)
  rw [rows_eq_of_lists lists]
  refine ⟨isLiteral_of_ne_zero fun c hc l hl => (inRange c hc l hl).1, ?_⟩
  rcases readCount_eq_ok counted with ⟨null, _⟩ | declared
  · exact .inl null
  · refine .inr ⟨f.numVariables, declared, ?_⟩
    intro row hrow l hl
    obtain ⟨c, hc, rfl⟩ := List.mem_map.1 hrow
    obtain ⟨k, hk, same⟩ := List.mem_map.1 hl
    cases same
    exact (inRange c hc l hk).2

end Formula

namespace FormulaError

variable {rows : List (List Datum)} {count : Datum} {e : FormulaError}

theorem Blames.not_isWellFormed (h : e.Blames rows count) : ¬Formula.IsWellFormed rows count := by
  intro well
  cases h with
  | literalNotInteger first _ | literalZero first =>
      obtain ⟨row, hrow, hitem, fails⟩ := first.exists_mem
      exact fails (well.literals row hrow _ hitem)
  | countNotInteger _ given other =>
      rcases well.count with null | ⟨n, declared, _⟩
      · exact given null
      · exact other n declared
  | countNegative _ declared negative =>
      rcases well.count with null | ⟨n, natural, _⟩
      · cases null.symm.trans declared
      · cases natural.symm.trans declared
        omega
  | literalOutside same _ declared first =>
      obtain ⟨c, hc, hl, beyond⟩ := first.exists_mem
      rcases well.count with null | ⟨n, natural, bound⟩
      · cases null.symm.trans declared
      · cases natural.symm.trans declared
        refine beyond (bound (c.map .integer) ?_ _ (List.mem_map_of_mem hl))
        rw [same]
        exact List.mem_map_of_mem hc

/-- What an error shows is part of the data, so it can be written if the data can. -/
theorem Blames.isSayable (h : e.Blames rows count)
    (listed : (Datum.list (rows.map .list)).isDescribable = true)
    (counted : count.isDescribable = true) : e.isSayable = true := by
  have shown {item : Datum} {row : List Datum} (hrow : row ∈ rows) (hitem : item ∈ row) :
      item.isDescribable = true :=
    Datum.isDescribable_of_mem (Datum.isDescribable_of_mem listed (List.mem_map_of_mem hrow)) hitem
  cases h with
  | literalNotInteger first _ =>
      obtain ⟨row, hrow, hitem, _⟩ := first.exists_mem
      exact shown hrow hitem
  | literalZero _ => rfl
  | countNotInteger _ _ _ => exact counted
  | countNegative _ declared _ =>
      rw [declared, Datum.isDescribable] at counted
      exact counted
  | @literalOutside _ _ l _ same _ declared first =>
      obtain ⟨c, hc, hl, _⟩ := first.exists_mem
      have written : (Datum.integer l).isDescribable = true :=
        shown (same ▸ List.mem_map_of_mem hc) (List.mem_map_of_mem hl)
      rw [declared, Datum.isDescribable] at counted
      rw [Datum.isDescribable] at written
      rw [FormulaError.isSayable, written, counted, Bool.and_self]

end FormulaError

namespace Formula

theorem ofData_of_outside {l : Int} {n : Nat} (outside : n < Literal.var l) :
    ofData (.list [.list [.integer l]]) (.integer n) = .error (.literalOutside 0 l n) := by
  have nonzero : l ≠ 0 := by
    rintro rfl
    exact Nat.not_lt_zero n outside
  have read : readClauses 0 [.list [.integer l]] = .ok [[l]] := by
    simp [readClauses, readLiterals, readLiteral, nonzero, Datum.elements?]
  have found : findOutside? n 0 [[l]] = some (0, l) := by
    simp [findOutside?, outside]
  rw [ofData]
  split
  · rename_i none_
    cases none_
  · rename_i items elements
    cases elements
    split
    · rename_i refused
      cases refused.symm.trans read
    · rename_i given accepted
      cases accepted.symm.trans read
      rw [readCount_natCast]
      dsimp only
      split
      · rename_i i k first
        cases first.symm.trans found
        rfl
      · rename_i missed
        cases missed.symm.trans found

/-- A list of lists and a count are a formula exactly when the lists hold literals and the count is
missing or enough for them. Otherwise the error is about the first thing that is wrong, and it can
be put into words unless the data has integers that cannot be written. A formula reads as the given
clauses. -/
theorem ofData_decides (rows : List (List Datum)) (count : Datum) :
    ((∃ f, ofData (.list (rows.map .list)) count = .ok f) ↔ IsWellFormed rows count) ∧
      (∀ e, ofData (.list (rows.map .list)) count = .error e → e.Blames rows count ∧
        ((Datum.list (rows.map .list)).isDescribable = true → count.isDescribable = true →
          e.isSayable = true)) ∧
      ∀ f, ofData (.list (rows.map .list)) count = .ok f →
        ∃ given, rows = given.map (List.map .integer) ∧ f.Reads given count := by
  refine ⟨⟨?_, ?_⟩, ?_, fun f accepted => reads_of_ofData accepted⟩
  · rintro ⟨f, accepted⟩
    exact isWellFormed_of_ofData accepted
  · intro well
    cases read : ofData (.list (rows.map .list)) count with
    | ok f => exact ⟨f, rfl⟩
    | error e => exact absurd well (blames_of_ofData read).not_isWellFormed
  · intro e refused
    have blames := blames_of_ofData refused
    exact ⟨blames, blames.isSayable⟩

/-- A literal out of range is refused without words where it cannot be written. -/
theorem ofData_unwritten :
    let l : Int := (10 ^ Text.maxDigits : Nat)
    ¬IsWellFormed [[.integer l]] (.integer 1) ∧
      ∃ e, ofData (.list [.list [.integer l]]) (.integer 1) = .error e ∧ e.isSayable = false ∧
        e.message = Datum.tooManyDigits := by
  intro l
  have size : l.natAbs = 10 ^ Text.maxDigits := Int.natAbs_natCast _
  have large : 1 < Literal.var l := by
    rw [Literal.var, size]
    exact Nat.one_lt_pow (by decide) (by decide)
  have unwritten : Datum.isWritable l = false := by
    rw [← Bool.not_eq_true, Text.isWritable_iff, size]
    exact Nat.lt_irrefl _
  clear_value l
  have refused : ofData (.list [.list [.integer l]]) (.integer 1) =
      .error (.literalOutside 0 l 1) := ofData_of_outside large
  have blames : (FormulaError.literalOutside 0 l 1).Blames [[.integer l]] (.integer 1) :=
    blames_of_ofData refused
  have silent : (FormulaError.literalOutside 0 l 1).isSayable = false := by
    rw [FormulaError.isSayable, unwritten, Bool.false_and]
  refine ⟨blames.not_isWellFormed, _, refused, silent, ?_⟩
  rw [FormulaError.message, silent, if_neg Bool.false_ne_true]

end Formula

end Clausal

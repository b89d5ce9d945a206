import Clausal.Proofs.Dimacs.Answer

/-!
Models on value lines. Whatever the order in which the variables of a model were entered, its
literals are written in ascending order, a 0 behind them, and cut into lines of the given width. The
model can be read off the words of the lines, so different models are written differently.
-/
namespace Clausal

/-- Every row but the last is full, and the last one is not empty. -/
structure IsFilled {α : Type} (width : Nat) (rows : List (List α)) : Prop where
  full : ∀ row ∈ rows.dropLast, row.length = width
  last : ∀ row ∈ rows.getLast?, 1 ≤ row.length ∧ row.length ≤ width

section Chunks

variable {α : Type} {width : Nat} {xs row : List α} {rows : List (List α)}

theorem IsFilled.cons (h : IsFilled width rows) (some_ : rows ≠ []) (full : row.length = width) :
    IsFilled width (row :: rows) := by
  obtain ⟨next, rest, rfl⟩ := List.exists_cons_of_ne_nil some_
  constructor
  · rw [List.dropLast_cons_cons]
    exact List.forall_mem_cons.2 ⟨full, h.full⟩
  · rw [List.getLast?_cons_cons]
    exact h.last

theorem isFilled_singleton (some_ : 1 ≤ row.length) (fits : row.length ≤ width) :
    IsFilled width [row] := by
  constructor
  · simp
  · simp [some_, fits]

theorem chunks_of_length_le (some_ : xs ≠ []) (fits : xs.length ≤ width) :
    chunks width xs = [xs] := by
  have room : 0 < width := Nat.lt_of_lt_of_le (List.length_pos_iff.2 some_) fits
  rw [chunks, if_pos ⟨room, some_⟩, List.take_of_length_le fits, List.drop_of_length_le fits,
    chunks]
  simp

theorem isFilled_chunks (room : 0 < width) (xs : List α) : IsFilled width (chunks width xs) := by
  induction xs using chunks.induct width with
  | case1 xs some_ ih =>
      by_cases fits : xs.length ≤ width
      · rw [chunks_of_length_le some_.2 fits]
        exact isFilled_singleton (List.length_pos_iff.2 some_.2) fits
      · rw [chunks, if_pos some_]
        refine ih.cons ?_ (List.length_take_of_le (Nat.le_of_not_le fits))
        have rest : xs.drop width ≠ [] := fun empty => fits (List.drop_eq_nil_iff.1 empty)
        rw [chunks, if_pos ⟨room, rest⟩]
        exact List.cons_ne_nil _ _
  | case2 xs none_ =>
      rw [chunks, if_neg none_]
      constructor <;> simp

theorem nil_not_mem_chunks (width : Nat) (xs : List α) : [] ∉ chunks width xs := by
  induction xs using chunks.induct width with
  | case1 xs some_ ih =>
      rw [chunks, if_pos some_, List.mem_cons, not_or]
      refine ⟨fun empty => ?_, ih⟩
      rcases List.take_eq_nil_iff.1 empty.symm with zero | none_
      · exact absurd zero (Nat.ne_of_gt some_.1)
      · exact some_.2 none_
  | case2 xs none_ =>
      rw [chunks, if_neg none_]
      exact List.not_mem_nil

end Chunks

namespace Assignment

variable {a b : Assignment}

/-- A table of values for distinct positive variables. -/
structure IsModel (a : Assignment) : Prop where
  distinct : (a.map Prod.fst).Nodup
  positive : ∀ v ∈ a.map Prod.fst, 0 < v

/-- The literals name each variable of the table once, in ascending order, and with its value. -/
structure IsSpelledBy (a : Assignment) (literals : List Int) : Prop where
  nonzero : 0 ∉ literals
  ascending : literals.Pairwise fun k l => Literal.var k < Literal.var l
  values : (literals.map fun l => ((Literal.var l : Int), Literal.isPositive l)).Perm a

theorem IsSpelledBy.perm {literals : List Int} (h : IsSpelledBy a literals)
    (h' : IsSpelledBy b literals) : b.Perm a :=
  h'.values.symm.trans h.values

/-- Sorted by variables that are distinct, the table is strictly ascending. -/
theorem IsModel.ascending (model : a.IsModel) :
    (a.mergeSort fun x y => x.1 ≤ y.1).Pairwise fun x y => x.1 < y.1 := by
  have sorted : (a.mergeSort fun x y => x.1 ≤ y.1).Pairwise
      fun x y => decide (x.1 ≤ y.1) = true := by
    apply List.pairwise_mergeSort
    · intro x y z
      simp only [decide_eq_true_eq]
      exact Int.le_trans
    · intro x y
      simp only [Bool.or_eq_true, decide_eq_true_eq]
      exact Int.le_total x.1 y.1
  have distinct : (a.mergeSort fun x y => x.1 ≤ y.1).Pairwise fun x y => x.1 ≠ y.1 :=
    List.pairwise_map.1 (((List.mergeSort_perm a _).map Prod.fst).nodup_iff.2 model.distinct)
  exact sorted.imp₂
    (fun _ _ before apart => Int.lt_iff_le_and_ne.2 ⟨of_decide_eq_true before, apart⟩) distinct

/-- What the literal of an entry says, if its variable is positive. -/
theorem signed_spec {v : Int} (positive : 0 < v) (b : Bool) :
    (if b then v else -v) ≠ 0 ∧ (Literal.var (if b then v else -v) : Int) = v ∧
      Literal.isPositive (if b then v else -v) = b := by
  obtain ⟨n, rfl⟩ := Int.eq_ofNat_of_zero_le (Int.le_of_lt positive)
  have least : 1 ≤ n := Int.natCast_pos.1 positive
  refine ⟨?_, ?_, ?_⟩
  · split <;> omega
  · exact congrArg Nat.cast (Literal.var_ofVar n b)
  · exact Literal.isPositive_ofVar least b

theorem IsModel.isSpelledBy_toLiterals (model : a.IsModel) : IsSpelledBy a a.toLiterals := by
  have perm : (a.mergeSort fun x y => x.1 ≤ y.1).Perm a := List.mergeSort_perm a _
  have signed (entry : Int × Bool) (h : entry ∈ a.mergeSort fun x y => x.1 ≤ y.1) :=
    signed_spec (model.positive entry.1 (List.mem_map_of_mem (perm.mem_iff.1 h))) entry.2
  constructor
  · rw [toLiterals, List.mem_map]
    rintro ⟨entry, hentry, zero⟩
    exact (signed entry hentry).1 zero
  · rw [toLiterals, List.pairwise_map]
    refine model.ascending.imp_of_mem fun {x y} hx hy before => ?_
    have first := (signed x hx).2.1
    have second := (signed y hy).2.1
    dsimp only
    omega
  · rw [toLiterals, List.map_map]
    refine List.Perm.trans (List.Perm.of_eq ?_) perm
    refine (List.map_congr_left fun entry hentry => ?_).trans (List.map_id _)
    obtain ⟨_, var, sign⟩ := signed entry hentry
    exact Prod.ext var sign

end Assignment

namespace Dimacs

variable {a : Assignment} {s : Solution} {stats : Stats} {width : Option Int}

theorem nil_not_mem_answerLines (s : Solution) (width : Option Int) : [] ∉ answerLines s width := by
  rw [answerLines]
  split
  · simp [Text.ofString]
  · intro empty
    rcases List.mem_cons.1 empty with verdict | value
    · cases verdict
    · cases startsWith_valueLine value

/-- The lines of a written answer are those it was put together from. -/
theorem lines_renderAnswer (s : Solution) (width : Option Int) :
    Text.lines (renderAnswer s width) = answerLines s width := by
  have closed : Text.lines (renderAnswer s width ++ [.char '\n']) = answerLines s width := by
    rw [renderAnswer_newline]
    exact lines_of_rows fun row hrow c hc => isLineEnd_of_mem_answerLines hrow hc
  -- The line feed behind the text adds no line, since no line of an answer is empty.
  rcases Text.lines_newline (renderAnswer s width) with same | empty
  · rw [← same, closed]
  · rw [closed] at empty
    refine absurd ?_ (nil_not_mem_answerLines s width)
    rw [empty]
    exact List.mem_append_right _ List.mem_cons_self

theorem lineWidth_pos (room : ∀ w ∈ width, 0 ≤ w) :
    0 < lineWidth width (modelWords s).length := by
  have some_ : 0 < (modelWords s).length := by simp [modelWords]
  cases width with
  | none => exact some_
  | some w =>
      have natural := room w rfl
      rw [lineWidth]
      split <;> omega

theorem exists_valueLine {line : Text} (h : line ∈ valueLines s width) :
    ∃ rest, line = Text.ofString "v " ++ rest := by
  obtain ⟨words, hwords, rfl⟩ := List.mem_map.1 h
  cases words with
  | nil => exact absurd hwords (nil_not_mem_chunks _ _)
  | cons word words =>
      rw [joinWords_cons_cons]
      exact ⟨joinWords (word :: words), rfl⟩

/-- The words behind the mark of a value line. -/
def lineWords (line : Text) : List Text := (Text.words line).tail

/-- How value lines show a model: what marks them, how they are filled, and what they say. An
integer with too many digits could not be read back, but it is not written either. -/
structure ShowsModel (lines : List Text) (width : Option Int) (a : Assignment) : Prop where
  marked : ∀ line ∈ lines, ∃ rest, line = Text.ofString "v " ++ rest
  filled : ∀ w : Nat, 1 ≤ w → width = some (w : Int) → IsFilled w (lines.map lineWords)
  single : width = none ∨ width = some 0 → lines.length = 1
  literals : lines.flatMap lineWords = (a.toLiterals ++ [0]).map integerWord
  spelled : a.IsSpelledBy a.toLiterals
  read : (∀ v ∈ a.map Prod.fst, Datum.isWritable v = true) →
    (lines.flatMap lineWords).map Text.integer? = (a.toLiterals ++ [0]).map some

theorem integer?_integerWord {literals : List Int} (h : ∀ l ∈ literals, Datum.isWritable l = true) :
    (literals.map integerWord).map Text.integer? = literals.map some := by
  rw [List.map_map]
  exact List.map_congr_left fun l hl => Text.integer?_ofString (h l hl)

theorem isWritable_of_isSpelledBy {literals : List Int} (spelled : a.IsSpelledBy literals)
    (h : ∀ v ∈ a.map Prod.fst, Datum.isWritable v = true) :
    ∀ l ∈ literals ++ [0], Datum.isWritable l = true := by
  intro l hl
  rcases List.mem_append.1 hl with hl | zero
  · have entry := spelled.values.mem_iff.1 (List.mem_map_of_mem hl)
    have bound := Text.isWritable_iff.1 (h _ (List.mem_map_of_mem entry))
    rw [Int.natAbs_natCast] at bound
    exact Text.isWritable_iff.2 bound
  · rw [List.mem_singleton.1 zero, Text.isWritable_iff]
    exact Nat.pow_pos (by decide)

theorem isSayable_iff_of_isModel (model : a.IsModel) (stats : Stats) :
    Solution.isSayable ⟨.satisfiable, some a, stats⟩ = true ↔
      ∀ v ∈ a.map Prod.fst, Datum.isWritable v = true := by
  have spelled := model.isSpelledBy_toLiterals
  have literals : Solution.toLiterals ⟨.satisfiable, some a, stats⟩ = a.toLiterals := rfl
  rw [Solution.isSayable, literals, List.all_eq_true]
  constructor
  · intro sayable v hv
    obtain ⟨⟨v, b⟩, entry, rfl⟩ := List.mem_map.1 hv
    obtain ⟨l, hl, same⟩ := List.mem_map.1 (spelled.values.mem_iff.2 entry)
    cases same
    rw [Text.isWritable_iff, Int.natAbs_natCast]
    exact Text.isWritable_iff.1 (sayable l hl)
  · intro writable l hl
    exact isWritable_of_isSpelledBy spelled writable l (List.mem_append_left _ hl)

theorem showsModel_valueLines (model : a.IsModel) (room : ∀ w ∈ width, 0 ≤ w) (stats : Stats) :
    ShowsModel (valueLines ⟨.satisfiable, some a, stats⟩ width) width a := by
  generalize shown : Solution.mk .satisfiable (some a) stats = s
  have rows := map_valueLines s width
  have words : (valueLines s width).flatMap lineWords = (a.toLiterals ++ [0]).map integerWord := by
    refine (flatMap_valueLines (lineWidth_pos room)).trans ?_
    rw [← shown]
    rfl
  have spelled := model.isSpelledBy_toLiterals
  refine ⟨fun line => exists_valueLine, ?_, ?_, words, spelled, fun writable => ?_⟩
  · rintro w least rfl
    have same : lineWidth (some (w : Int)) (modelWords s).length = w := by
      rw [lineWidth, if_neg (by omega), Int.toNat_natCast]
    rw [same] at rows
    exact rows ▸ isFilled_chunks least _
  · intro flat
    have all : lineWidth width (modelWords s).length = (modelWords s).length := by
      rcases flat with rfl | rfl <;> rfl
    have some_ : modelWords s ≠ [] := by simp [modelWords]
    rw [all, chunks_of_length_le some_ (Nat.le_refl _)] at rows
    simpa using congrArg List.length rows
  · rw [words]
    exact integer?_integerWord (isWritable_of_isSpelledBy spelled writable)

/-- A model that is written is read back. -/
theorem integer?_of_writeAnswer {text : Text} (model : a.IsModel) (room : ∀ w ∈ width, 0 ≤ w)
    (written : writeAnswer ⟨.satisfiable, some a, stats⟩ width = .ok text) :
    ((Text.lines text).tail.flatMap lineWords).map Text.integer? =
      (a.toLiterals ++ [0]).map some := by
  rw [writeAnswer] at written
  split at written
  · rename_i sayable
    cases written
    rw [lines_renderAnswer]
    have writable := (isSayable_iff_of_isModel model stats).1 sayable
    exact (showsModel_valueLines model room stats).read writable
  · cases written

end Dimacs

end Clausal

import Clausal.Dimacs.Printer
import Clausal.Proofs.Dimacs.Scan

/-!
Written texts, line by line. Words that are joined by blanks come apart again where they were
joined, the problem line and the lines of clauses are told for what they are, and a comment takes
up as many lines as it has itself.
-/
namespace Clausal.Dimacs

/-- Words stay apart when they are joined. -/
def IsWord (word : Text) : Prop := word ≠ [] ∧ ∀ c ∈ word, Text.isBlank c = false

variable {word : Text} {words : List Text} {c : CodePoint}

theorem joinWords_cons_cons (v w : Text) (words : List Text) :
    joinWords (v :: w :: words) = v ++ .char ' ' :: joinWords (w :: words) := by
  rw [joinWords, List.intercalate_cons_cons, List.append_assoc]
  rfl

theorem joinWords_singleton (word : Text) : joinWords [word] = word :=
  List.intercalate_singleton

theorem words_joinWords (h : ∀ w ∈ words, IsWord w) : Text.words (joinWords words) = words := by
  induction words with
  | nil => rfl
  | cons v words ih =>
      obtain ⟨⟨nonempty, dense⟩, later⟩ := List.forall_mem_cons.1 h
      cases words with
      | nil => rw [joinWords_singleton, Text.words_of_no_blank nonempty dense]
      | cons w words =>
          rw [joinWords_cons_cons, Text.words_append_blank rfl,
            Text.words_of_no_blank nonempty dense, ih later]
          rfl

theorem isLineEnd_of_mem_joinWords (h : ∀ w ∈ words, IsWord w) (hc : c ∈ joinWords words) :
    Text.isLineEnd c = false := by
  have dense (w : Text) (hw : IsWord w) (hc : c ∈ w) : Text.isLineEnd c = false :=
    Text.isLineEnd_of_isBlank (hw.2 c hc)
  induction words with
  | nil => cases hc
  | cons v words ih =>
      obtain ⟨first, later⟩ := List.forall_mem_cons.1 h
      cases words with
      | nil =>
          rw [joinWords_singleton] at hc
          exact dense v first hc
      | cons w words =>
          rw [joinWords_cons_cons, List.mem_append, List.mem_cons] at hc
          rcases hc with hc | rfl | hc
          · exact dense v first hc
          · rfl
          · exact ih later hc

theorem head?_joinWords (h : IsWord word) (words : List Text) :
    (joinWords (word :: words)).head? = word.head? := by
  cases words with
  | nil => rw [joinWords_singleton]
  | cons w words => rw [joinWords_cons_cons, List.head?_append_of_ne_nil _ h.1]

theorem exists_getLast?_joinWords (some_ : words ≠ []) (h : ∀ w ∈ words, IsWord w) :
    ∃ c, (joinWords words).getLast? = some c ∧ Text.isBlank c = false := by
  induction words with
  | nil => exact absurd rfl some_
  | cons v words ih =>
      obtain ⟨⟨nonempty, dense⟩, later⟩ := List.forall_mem_cons.1 h
      cases words with
      | nil =>
          rw [joinWords_singleton]
          exact ⟨v.getLast nonempty, List.getLast?_eq_some_getLast nonempty,
            dense _ (List.getLast_mem nonempty)⟩
      | cons w words =>
          obtain ⟨c, last, dense⟩ := ih nofun later
          refine ⟨c, ?_, dense⟩
          rw [joinWords_cons_cons, List.getLast?_append, List.getLast?_cons, last]
          rfl

theorem trim_joinWords (h : ∀ w ∈ words, IsWord w) :
    Text.trim (joinWords words) = joinWords words := by
  cases words with
  | nil => rfl
  | cons w words =>
      refine Text.trim_eq_self ?_ ?_
      · have first := h w List.mem_cons_self
        rw [head?_joinWords first]
        exact fun c hc => first.2 c (List.mem_of_head? hc)
      · obtain ⟨c, last, dense⟩ := exists_getLast?_joinWords (List.cons_ne_nil w words) h
        rw [last]
        rintro _ ⟨⟩
        exact dense

theorem isWord_integerWord (n : Int) : IsWord (integerWord n) := by
  refine ⟨Text.ofString_toString_ne_nil n, fun c hc => ?_⟩
  obtain ⟨d, rfl, rfl | digit⟩ := Text.mem_ofString_toString hc
  · rfl
  · exact Text.isBlank_of_isDigit digit

theorem isWord_of_mem_problemLine (n m : Int) :
    ∀ w ∈ [("p" : Text), "cnf", integerWord n, integerWord m], IsWord w := by
  have p : IsWord "p" := ⟨nofun, by decide⟩
  have cnf : IsWord "cnf" := ⟨nofun, by decide⟩
  simp [p, cnf, isWord_integerWord]

theorem ofText_problemLine (f : Formula) :
    Line.ofText (problemLine f) = .problem (problemLine f) := by
  obtain ⟨rest, start⟩ : ∃ rest, problemLine f = .char 'p' :: rest := ⟨_, rfl⟩
  have trimmed : Text.trim (problemLine f) = .char 'p' :: rest := by
    rw [problemLine, trim_joinWords (isWord_of_mem_problemLine _ _), ← problemLine, start]
  rw [Line.ofText, trimmed, start]
  rfl

theorem isWord_of_mem_integers {ints : List Int} : ∀ w ∈ ints.map integerWord, IsWord w := by
  intro w hw
  obtain ⟨n, _, rfl⟩ := List.mem_map.1 hw
  exact isWord_integerWord n

theorem ofText_clauseLine (c : Clause) :
    Line.ofText (clauseLine c) = .data ((c ++ [0]).map integerWord) := by
  obtain ⟨l, ls, ints⟩ := List.exists_cons_of_ne_nil (List.concat_ne_nil 0 c)
  have word := isWord_integerWord l
  obtain ⟨first, digits, start⟩ := List.exists_cons_of_ne_nil word.1
  obtain ⟨d, rfl, sign⟩ := Text.mem_ofString_toString (start ▸ List.mem_cons_self)
  have different {e : Char} (minus : e ≠ '-') (digit : e.isDigit = false) :
      CodePoint.char d ≠ e := by
    rintro same
    cases same
    rcases sign with rfl | sign
    · exact minus rfl
    · cases sign.symm.trans digit
  have trimmed : Text.trim (clauseLine c) = clauseLine c :=
    trim_joinWords isWord_of_mem_integers
  have front : (clauseLine c).head? = some (.char d) := by
    rw [clauseLine, ints, List.map_cons, head?_joinWords word, start]
    rfl
  obtain ⟨rest, line⟩ := List.head?_eq_some_iff.1 front
  rw [Line.ofText_eq_data (trimmed.trans line) (different (by decide) rfl)
    (different (by decide) rfl) (different (by decide) rfl), trimmed, clauseLine,
    words_joinWords isWord_of_mem_integers]

/-- The lines that comments take up. -/
def commentLines (comments : List Text) : List Text :=
  comments.flatMap fun comment => Text.lines (commentLine comment ++ [.char '\n'])

theorem lines_flatMap_newline (rows : List Text) :
    Text.lines (rows.flatMap (· ++ [.char '\n'])) =
      rows.flatMap fun row => Text.lines (row ++ [.char '\n']) := by
  induction rows with
  | nil => rfl
  | cons row rows ih =>
      rw [List.flatMap_cons, List.flatMap_cons, List.append_assoc, List.singleton_append,
        Text.lines_append_newline, ih]

/-- Rows that are closed by line feeds are the lines of their text. -/
theorem lines_of_rows {rows : List Text} (h : ∀ row ∈ rows, ∀ c ∈ row, Text.isLineEnd c = false) :
    Text.lines (rows.flatMap (· ++ [.char '\n'])) = rows := by
  rw [lines_flatMap_newline]
  calc
    _ = rows.flatMap fun row => [row] :=
      List.flatMap_congr fun row hrow => Text.lines_of_no_end (h row hrow)
    _ = rows := List.flatMap_singleton' rows

theorem lines_joinWords (h : ∀ w ∈ words, IsWord w) :
    Text.lines (joinWords words ++ [.char '\n']) = [joinWords words] :=
  Text.lines_of_no_end fun _ => isLineEnd_of_mem_joinWords h

theorem lines_render (f : Formula) (comments : List Text) :
    Text.lines (render f comments) =
      commentLines comments ++ problemLine f :: f.clauses.map clauseLine := by
  have clause (c : Clause) : Text.lines (clauseLine c ++ [.char '\n']) = [clauseLine c] :=
    lines_joinWords isWord_of_mem_integers
  have problem : Text.lines (problemLine f ++ [.char '\n']) = [problemLine f] :=
    lines_joinWords (isWord_of_mem_problemLine _ _)
  rw [render, lines_flatMap_newline, fileLines, List.flatMap_append, List.flatMap_map,
    List.flatMap_cons, problem, List.flatMap_map]
  simp only [clause, ← List.map_eq_flatMap]
  rfl

variable {comments : List Text}

theorem commentLine_eq (comment : Text) :
    commentLine comment = [.char 'c', .char ' '] ++ comment :=
  rfl

theorem skip_commentLine_iff (comment : Text) :
    (∀ line ∈ Text.lines (commentLine comment ++ [.char '\n']), Line.ofText line = .skip) ↔
      ∀ line ∈ (Text.lines comment).tail, Line.ofText line = .skip := by
  obtain ⟨first, rest, cut⟩ := List.exists_cons_of_ne_nil (Text.lines_newline_ne_nil comment)
  have mark : ∀ c ∈ [CodePoint.char 'c', .char ' '], Text.isLineEnd c = false := by decide
  have longer := Text.lines_append mark cut
  have skip : Line.ofText ([.char 'c', .char ' '] ++ first) = .skip := by
    obtain ⟨later, start⟩ := Text.exists_trim_cons (c := 'c') rfl (.char ' ' :: first)
    exact Line.ofText_eq_skip.2 (.inr ⟨later, start⟩)
  have blank : Line.ofText [] = .skip := rfl
  rw [commentLine_eq, List.append_assoc, longer, List.forall_mem_cons, and_iff_right skip]
  rcases Text.lines_newline comment with same | closed
  · rw [← same, cut, List.tail_cons]
  · rw [cut] at closed
    generalize Text.lines comment = given at closed ⊢
    cases given with
    | nil =>
        cases closed
        rfl
    | cons head tail =>
        rw [List.cons_append] at closed
        obtain ⟨_, rfl⟩ := List.cons.inj closed
        rw [List.tail_cons, List.forall_mem_append, List.forall_mem_singleton,
          and_iff_left blank]

theorem skip_commentLines_iff :
    (∀ line ∈ commentLines comments, Line.ofText line = .skip) ↔
      ∀ comment ∈ comments, ∀ line ∈ (Text.lines comment).tail, Line.ofText line = .skip := by
  rw [commentLines, List.forall_mem_flatMap]
  exact forall₂_congr fun comment _ => skip_commentLine_iff comment

end Clausal.Dimacs

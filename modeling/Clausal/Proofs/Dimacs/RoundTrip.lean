import Clausal.Proofs.Dimacs.Printer
import Clausal.Proofs.Dimacs.Written

/-!
Formulas written and read back. A written formula is read word by word as it was written, after any
comments whose lines are read as comments; a comment of several lines can be taken for a part of the
formula, and then the text does not stand for the formula any more.
-/
namespace Clausal.Dimacs

variable {f : Formula} {comments : List Text}

theorem headerOfText_problemLine (w : f.IsWritable) (line : Nat) :
    Header.ofText line (problemLine f) = .ok ⟨f.numVariables, f.numClauses⟩ := by
  have n : Text.integer? (integerWord f.numVariables) = some (f.numVariables : Int) :=
    Text.integer?_ofString w.numVariables
  have m : Text.integer? (integerWord f.numClauses) = some (f.numClauses : Int) :=
    Text.integer?_ofString w.numClauses
  have natural : ¬((f.numVariables : Int) < 0 ∨ (f.numClauses : Int) < 0) := by omega
  rw [Header.ofText, problemLine, words_joinWords (isWord_of_mem_problemLine _ _)]
  dsimp only
  rw [if_pos rfl, n, m]
  dsimp only
  rw [if_neg natural]
  rfl

namespace Scan

theorem readWords_clause {s : Scan} {h : Header} {c : Clause} (declared : s.header = some h)
    (fits : ∀ l ∈ c, l ≠ 0 ∧ Literal.var l ≤ h.numVariables)
    (writable : ∀ l ∈ c, Datum.isWritable l = true) (line : Nat) :
    s.readWords line ((c ++ [0]).map integerWord) =
      .ok { s with
        closed := (s.current.reverse ++ c) :: s.closed
        current := []
        start := none } := by
  induction c generalizing s with
  | nil =>
      have zero : Text.integer? (integerWord 0) = some 0 := rfl
      rw [List.nil_append, List.map_singleton, readWords, readWord, zero, List.append_nil]
      rfl
  | cons l c ih =>
      obtain ⟨⟨nonzero, inside⟩, fits⟩ := List.forall_mem_cons.1 fits
      obtain ⟨first, writable⟩ := List.forall_mem_cons.1 writable
      have read : Text.integer? (integerWord l) = some l := Text.integer?_ofString first
      have admitted : s.excludes l = none := by
        rw [excludes, declared]
        exact if_neg (Nat.not_lt.2 inside)
      rw [List.cons_append, List.map_cons, readWords, readWord, read]
      dsimp only
      rw [if_neg nonzero, admitted]
      dsimp only
      let u : Scan := { s with current := l :: s.current, start := some (s.start.getD line) }
      have later := ih (s := u) declared fits writable
      rw [later, List.reverse_cons, List.append_assoc]
      rfl

theorem readLines_clauses {h : Header} {clauses : List Clause}
    (fits : ∀ c ∈ clauses, ∀ l ∈ c, l ≠ 0 ∧ Literal.var l ≤ h.numVariables)
    (writable : ∀ c ∈ clauses, ∀ l ∈ c, Datum.isWritable l = true) (line : Nat)
    (closed : List Clause) :
    readLines line ⟨some h, closed, [], none⟩ (clauses.map clauseLine) =
      .ok ⟨some h, clauses.reverse ++ closed, [], none⟩ := by
  induction clauses generalizing line closed with
  | nil => rfl
  | cons c clauses ih =>
      obtain ⟨firstFits, fits⟩ := List.forall_mem_cons.1 fits
      obtain ⟨first, writable⟩ := List.forall_mem_cons.1 writable
      rw [List.map_cons, readLines, ofText_clauseLine]
      dsimp only
      rw [readWords_clause rfl firstFits first]
      dsimp only
      rw [List.reverse_nil, List.nil_append, ih fits writable, List.reverse_cons, List.append_assoc]
      rfl

end Scan

theorem scan_render (f : Formula) (comments : List Text) :
    scan (render f comments) =
      (Scan.readFront 1 {} (commentLines comments)).elim
        (fun u => u.readLines (1 + (commentLines comments).length)
          (problemLine f :: f.clauses.map clauseLine)) id := by
  rw [scan, lines_render, Scan.readLines_append]

theorem toFormula_whole (f : Formula) :
    Scan.toFormula ⟨some ⟨f.numVariables, f.numClauses⟩, f.clauses.reverse, [], none⟩ = .ok f := by
  have counted : f.clauses.length = f.numClauses := rfl
  rw [Scan.toFormula]
  dsimp only
  rw [Scan.clauses, List.isEmpty_nil, if_pos rfl, List.reverse_reverse, if_pos counted,
    Formula.ofLists_clauses]
  rfl

theorem parse_render_of_skip (writable : f.IsWritable)
    (skips : ∀ line ∈ commentLines comments, Line.ofText line = .skip) :
    parse (render f comments) = .ok f := by
  have read : scan (render f comments) =
      .ok ⟨some ⟨f.numVariables, f.numClauses⟩, f.clauses.reverse, [], none⟩ := by
    rw [scan_render, Scan.readFront_of_skip skips, Sum.elim_inl, Scan.readLines,
      ofText_problemLine]
    dsimp only
    rw [Scan.readProblem, headerOfText_problemLine writable, ← List.append_nil f.clauses.reverse]
    exact Scan.readLines_clauses f.inRange (fun c hc l hl => writable.literal hc hl) _ _
  rw [parse, read]
  exact toFormula_whole f

theorem write_eq_ok {text : Text} :
    write f comments = .ok text ↔ f.IsWritable ∧ render f comments = text := by
  rw [write, ← Formula.isSayable_iff]
  split <;> simp [*]

/-- What is written under comments that are read as comments is read back. -/
theorem parse_of_write {text : Text} (written : write f comments = .ok text)
    (skips : ∀ line ∈ commentLines comments, Line.ofText line = .skip) : parse text = .ok f := by
  obtain ⟨writable, rfl⟩ := write_eq_ok.1 written
  exact parse_render_of_skip writable skips

/-- What is read from a text can be written. -/
theorem write_of_parse {text : Text} (short : text.length < 10 ^ Text.maxDigits)
    (read : parse text = .ok f) (comments : List Text) :
    write f comments = .ok (render f comments) :=
  write_eq_ok.2 ⟨isWritable_of_parse short read, rfl⟩

/-- The formula over `n` variables without clauses. -/
def clauseless (n : Nat) : Formula := ⟨n, [], nofun, nofun⟩

theorem isWritable_clauseless {n : Nat} (h : n ≤ 1) : (clauseless n).IsWritable := by
  have positive : 1 < 10 ^ Text.maxDigits := Nat.one_lt_pow (by decide) (by decide)
  constructor
  · exact Text.isWritable_iff.2 (Nat.lt_of_le_of_lt h positive)
  · exact Text.isWritable_iff.2 (Nat.lt_of_le_of_lt (Nat.zero_le 1) positive)

/-- Comment lines that are not read as comments are not harmless for any two formulas at once: an
error stays an error, the end of the input hides the formula, and after anything else the problem
line comes too late. -/
theorem skip_of_parse_render {g : Formula} (different : f ≠ g)
    (readF : parse (render f comments) = .ok f) (readG : parse (render g comments) = .ok g) :
    ∀ line ∈ commentLines comments, Line.ofText line = .skip := by
  rw [parse, scan_render] at readF readG
  cases front : Scan.readFront 1 {} (commentLines comments) with
  | inr result =>
      rw [front, Sum.elim_inr] at readF readG
      exact absurd (Except.ok.inj (readF.symm.trans readG)) different
  | inl u =>
      rcases Scan.readFront_eq_inl front with ⟨skips, _⟩ | stale
      · exact skips
      · obtain ⟨e, refused⟩ := Scan.readLines_problem_of_stale stale (ofText_problemLine f)
          (1 + (commentLines comments).length) (f.clauses.map clauseLine)
        rw [front, Sum.elim_inl, refused] at readF
        cases readF

/-- A formula is read back as it was written under any comments whose later lines look like comments
themselves, and under no others. What is read from a text is always read back when it is written
again. The bound on the text is never met in practice: without a problem line, only a text of more
code points than that could have so many clauses that their number cannot be written. -/
theorem parse_render :
    (∀ comments : List Text,
      (∀ f : Formula, f.IsWritable → parse (render f comments) = .ok f) ↔
        ∀ comment ∈ comments, ∀ line ∈ (Text.lines comment).tail,
          Text.trim line = [] ∨ ∃ rest, Text.trim line = .char 'c' :: rest) ∧
    ∀ text : Text, text.length < 10 ^ Text.maxDigits → ∀ f, parse text = .ok f →
      parse (render f []) = .ok f := by
  refine ⟨fun comments => ?_, fun text short f read => ?_⟩
  · simp only [← Line.ofText_eq_skip]
    rw [← skip_commentLines_iff]
    constructor
    · intro back
      have different : clauseless 0 ≠ clauseless 1 :=
        fun same => Nat.zero_ne_one (congrArg Formula.numVariables same)
      exact skip_of_parse_render different (back _ (isWritable_clauseless (by decide)))
        (back _ (isWritable_clauseless (by decide)))
    · intro skips f writable
      exact parse_render_of_skip writable skips
  · exact parse_render_of_skip (isWritable_of_parse short read) nofun

theorem parse_render_injected :
    let f : Formula := ⟨2, [[1, -2], []], by decide, by decide⟩
    let comment : Text := "two clauses\n c and no model\r\n"
    let clause : Text := "a clause\n1 0"
    parse (render f [comment]) = .ok f ∧
      ¬∀ g : Formula, g.IsWritable → parse (render g [comment, clause]) = .ok g := by
  intro f comment clause
  have writable : f.IsWritable := by
    have bound : 2 < 10 ^ Text.maxDigits :=
      Nat.lt_of_lt_of_le (by decide : 2 < 10 ^ 1) (Nat.pow_le_pow_right (by decide) (by decide))
    exact ⟨Text.isWritable_iff.2 bound, Text.isWritable_iff.2 bound⟩
  have later : (Text.lines comment).tail = [Text.ofString " c and no model"] := rfl
  have intruder : (Text.lines clause).tail = [Text.ofString "1 0"] := rfl
  constructor
  · refine (parse_render.1 [comment]).2 ?_ f writable
    rw [List.forall_mem_singleton, later, List.forall_mem_singleton]
    exact .inr ⟨_, rfl⟩
  · intro back
    have harmless := (parse_render.1 [comment, clause]).1 back clause (by simp) "1 0"
      (by rw [intruder]; exact List.mem_singleton_self _)
    rcases harmless with empty | ⟨_, start⟩
    · cases empty
    · cases start

end Clausal.Dimacs

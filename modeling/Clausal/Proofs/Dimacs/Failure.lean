import Clausal.Proofs.Dimacs.Acceptance
import Clausal.Proofs.Dimacs.Printer

/-!
Where reading a text fails. An error of a line is that of the first line that cannot be read: it is
found whatever comes after that line, and what comes before the line has no such error. Once all
lines have been read, only the number of clauses can still be wrong, since every literal has been held
against the problem line by then.
-/
namespace Clausal

namespace DimacsError

/-- Whether the integers can be written that the message shows besides the number of the line. -/
def hasWritable : DimacsError → Bool
  | .literalOutside _ l n => Datum.isWritable l && Datum.isWritable n
  | .clauseCount declared found => Datum.isWritable declared && Datum.isWritable found
  | .formula e => e.isSayable
  | _ => true

/-- Whether the message shows no integer that cannot be written. -/
def isSayable (e : DimacsError) : Bool :=
  (e.line?.all fun n : Nat => Datum.isWritable n) && e.hasWritable

/-- The error names the line, and what else it shows can be written. -/
structure IsAt (line : Nat) (e : DimacsError) : Prop where
  named : e.line? = some line
  writable : e.hasWritable = true

end DimacsError

namespace Dimacs

variable {text : Text} {e : DimacsError}

namespace Scan

variable {s u : Scan} {line k : Nat} {raw : Text} {raws front rest : List Text}

theorem isAt_of_headerOfText {text : Text} (h : Header.ofText line text = .error e) :
    e.IsAt line := by
  have malformed : (DimacsError.malformedProblem line text).IsAt line :=
    ⟨rfl, rfl⟩
  rw [Header.ofText] at h
  split at h
  · split at h
    · split at h
      · split at h
        · cases h
          exact ⟨rfl, rfl⟩
        · cases h
      · cases h
        exact malformed
    · cases h
      exact malformed
  · cases h
    exact malformed

theorem isAt_of_readProblem {text : Text} (h : s.readProblem line text = .error e) :
    e.IsAt line := by
  rw [readProblem] at h
  split at h
  · cases h
    exact ⟨rfl, rfl⟩
  · split at h
    · cases h
      exact ⟨rfl, rfl⟩
    · split at h
      · rename_i refused
        cases h
        exact isAt_of_headerOfText refused
      · cases h

theorem exists_declared_of_excludes {l : Int} {n : Nat} (h : s.excludes l = some n) :
    ∃ d ∈ s.header, d.numVariables = n := by
  rw [excludes] at h
  split at h
  · rename_i d declared
    split at h
    · cases h
      exact ⟨d, declared, rfl⟩
    · cases h
  · cases h

theorem isAt_of_readWord {word : Text} (w : s.Written k) (h : s.readWord line word = .error e) :
    e.IsAt line := by
  rw [readWord] at h
  split at h
  · cases h
    exact ⟨rfl, rfl⟩
  · rename_i l read
    split at h
    · cases h
    · split at h
      · rename_i n excluded
        cases h
        obtain ⟨d, declared, rfl⟩ := exists_declared_of_excludes excluded
        refine ⟨rfl, ?_⟩
        rw [DimacsError.hasWritable, Text.isWritable_of_integer? read, w.declared d declared,
          Bool.and_true]
      · cases h

theorem isAt_of_readWords {words : List Text} (w : s.Written k)
    (h : s.readWords line words = .error e) : e.IsAt line := by
  induction words generalizing s k with
  | nil => cases h
  | cons word words ih =>
      rw [readWords] at h
      split at h
      · rename_i refused
        cases h
        exact isAt_of_readWord w refused
      · rename_i t first
        exact ih (w.readWord first) h

theorem isAt_of_readLine (w : s.Written k) (h : s.readLine line raw = .inr (.error e)) :
    e.IsAt line := by
  rw [readLine] at h
  split at h
  · cases h
  · cases h
  · split at h
    · cases h
    · rename_i refused
      cases h
      exact isAt_of_readProblem refused
  · split at h
    · cases h
    · rename_i refused
      cases h
      exact isAt_of_readWords w refused

theorem readLines_of_readFront (h : s.readFront line front = .inl u) (rest : List Text) :
    s.readLines line (front ++ rest) = u.readLines (line + front.length) rest := by
  rw [readLines_append, h, Sum.elim_inl]

theorem readLines_front (h : s.readFront line front = .inl u) : s.readLines line front = .ok u := by
  rw [← List.append_nil front, readLines_of_readFront h]
  rfl

/-- An error comes from a line that is reached. -/
theorem exists_front (h : s.readLines line raws = .error e) :
    ∃ front raw rest u, raws = front ++ raw :: rest ∧ s.readFront line front = .inl u ∧
      u.readLine (line + front.length) raw = .inr (.error e) := by
  induction raws generalizing line s with
  | nil => cases h
  | cons raw raws ih =>
      rw [readLines_cons] at h
      cases first : s.readLine line raw with
      | inl t =>
          rw [first] at h
          obtain ⟨front, bad, rest, u, rfl, reached, refused⟩ := ih h
          refine ⟨raw :: front, bad, rest, u, rfl, ?_, ?_⟩
          · rw [readFront, first]
            exact reached
          · rw [List.length_cons, Nat.add_comm front.length, ← Nat.add_assoc]
            exact refused
      | inr result =>
          rw [first] at h
          cases h
          exact ⟨[], raw, raws, s, rfl, rfl, first⟩

/-- Reading breaks off at a line, and does so whatever comes after it. -/
theorem readLines_of_refused (reached : s.readFront line front = .inl u)
    (refused : u.readLine (line + front.length) raw = .inr (.error e)) (rest : List Text) :
    s.readLines line (front ++ raw :: rest) = .error e := by
  rw [readLines_of_readFront reached, readLines_cons, refused]
  rfl

theorem toFormula_eq_error (divided : s.Divided)
    (bounded : ∀ d ∈ s.header, ∀ l ∈ s.read, Literal.var l ≤ d.numVariables)
    (h : s.toFormula = .error e) :
    ∃ d ∈ s.header, s.clauses.length ≠ d.numClauses ∧
      e = .clauseCount d.numClauses s.clauses.length := by
  by_cases counted : ∀ d ∈ s.header, s.clauses.length = d.numClauses
  · obtain ⟨f, _, built⟩ := s.exists_toFormula divided bounded counted
    cases built.symm.trans h
  · push Not at counted
    obtain ⟨d, declared, different⟩ := counted
    rw [toFormula, Option.mem_def.1 declared] at h
    dsimp only at h
    rw [if_neg different] at h
    cases h
    exact ⟨d, declared, different, rfl⟩

end Scan

/-- An error of the whole text says that the declared number of clauses is not the number found. -/
theorem exists_layout_of_scan {s : Scan} (read : scan text = .ok s) (h : parse text = .error e) :
    ∃ declared, Layout (contentLines (Text.lines text)) (some declared) s.read ∧
      (splitClauses s.read).length ≠ declared.numClauses ∧
      e = .clauseCount declared.numClauses (splitClauses s.read).length := by
  obtain ⟨layout, divided⟩ := Scan.layout_of_readLines read
  rw [parse, read] at h
  obtain ⟨d, declared, different, rfl⟩ := Scan.toFormula_eq_error divided layout.bounded h
  rw [Option.mem_def.1 declared] at layout
  rw [Scan.splitClauses_read divided]
  exact ⟨d, layout, different, rfl⟩

theorem hasWritable_clauseCount {content : List Text} {d : Header} {integers : List Int}
    {found : Nat} (layout : Layout content (some d) integers)
    (short : found < 10 ^ Text.maxDigits) :
    (DimacsError.clauseCount d.numClauses found).hasWritable = true := by
  have declared := layout.declared
  generalize problemLines content = problems at declared
  cases declared with
  | cons first _ =>
      obtain ⟨_, _, _, _, _, integer⟩ := first
      have written : Datum.isWritable found = true :=
        Text.isWritable_iff.2 (by rwa [Int.natAbs_natCast])
      rw [DimacsError.hasWritable, Text.isWritable_of_integer? integer, written, Bool.and_true]

/-- An error of a line comes from the first line that cannot be read. -/
theorem exists_front_of_scan (h : scan text = .error e) :
    ∃ front raw rest u, Text.lines text = front ++ raw :: rest ∧
      Scan.readFront 1 {} front = .inl u ∧
      u.readLine (1 + front.length) raw = .inr (.error e) ∧ e.IsAt (1 + front.length) := by
  obtain ⟨front, raw, rest, u, cut, reached, refused⟩ := Scan.exists_front h
  have read : Scan.readLines 1 {} front = .ok u := Scan.readLines_front reached
  exact ⟨front, raw, rest, u, cut, reached, refused,
    Scan.isAt_of_readLine (Scan.written_start.readLines read) refused⟩

theorem isSayable_of_isAt {k : Nat} (short : text.length < 10 ^ Text.maxDigits)
    (inside : k ≤ (Text.lines text).length) (at_ : e.IsAt k) : e.isSayable = true := by
  have bound : k < 10 ^ Text.maxDigits :=
    Nat.lt_of_le_of_lt (Nat.le_trans inside (Text.length_lines_le text)) short
  have written : Datum.isWritable k = true :=
    Text.isWritable_iff.2 (by rwa [Int.natAbs_natCast])
  rw [DimacsError.isSayable, at_.named, Option.all_some, written, at_.writable, Bool.and_true]

/-- A text that is not read has an error that can be put into words. If the error is one of a line,
any text that starts with the same lines up to that one has the same error, and the lines before it
alone have no error of a line. Otherwise the lines have a layout, with a problem line that declares a
wrong number of clauses. So it never comes to a refusal of the clauses themselves. -/
theorem parse_error (h : parse text = .error e) :
    (∀ reason, e ≠ .formula reason) ∧
    (text.length < 10 ^ Text.maxDigits → e.isSayable = true) ∧
    (∀ k, e.line? = some k → 1 ≤ k ∧ k ≤ (Text.lines text).length ∧
      (∀ other, (Text.lines other).take k = (Text.lines text).take k →
        parse other = .error e) ∧
      ∀ before, Text.lines before = (Text.lines text).take (k - 1) →
        ∀ e', parse before = .error e' → e'.line? = none) ∧
    (e.line? = none → ∃ declared integers,
      Layout (contentLines (Text.lines text)) (some declared) integers ∧
      (splitClauses integers).length ≠ declared.numClauses ∧
      e = .clauseCount declared.numClauses (splitClauses integers).length) := by
  cases read : scan text with
  | error reason =>
      rw [parse, read] at h
      cases h
      obtain ⟨front, raw, rest, u, cut, reached, refused, at_⟩ := exists_front_of_scan read
      have count : (Text.lines text).length = front.length + (rest.length + 1) := by
        rw [cut, List.length_append, List.length_cons]
      refine ⟨?_, ?_, ?_, ?_⟩
      · rintro reason rfl
        cases at_.named
      · intro short
        exact isSayable_of_isAt short (by omega) at_
      · intro k named
        cases named.symm.trans at_.named
        refine ⟨Nat.le_add_right 1 _, by omega, fun other same => ?_, ?_⟩
        · have start : (Text.lines other).take (1 + front.length) = front ++ [raw] := by
            rw [same, cut, Nat.add_comm, List.take_length_add_append]
            rfl
          rw [parse, scan, ← List.take_append_drop (1 + front.length) (Text.lines other), start,
            List.append_assoc]
          have again := Scan.readLines_of_refused reached refused
          rw [List.singleton_append, again]
        · intro before same e' failed
          rw [cut, Nat.add_sub_cancel_left, List.take_left] at same
          have quiet : scan before = .ok u := by
            rw [scan, same]
            exact Scan.readLines_front reached
          obtain ⟨_, _, _, rfl⟩ := exists_layout_of_scan quiet failed
          rfl
      · intro unnamed
        cases unnamed.symm.trans at_.named
  | ok s =>
      obtain ⟨declared, layout, different, rfl⟩ := exists_layout_of_scan read h
      refine ⟨?_, ?_, ?_, fun _ => ⟨declared, s.read, layout, different, rfl⟩⟩
      · intro reason same
        cases same
      · intro short
        rw [DimacsError.isSayable, DimacsError.line?, Option.all_none, Bool.true_and]
        refine hasWritable_clauseCount layout (Nat.lt_of_le_of_lt ?_ short)
        rw [Scan.splitClauses_read (Scan.layout_of_readLines read).2]
        exact (written_of_scan read).count
      · intro k named
        cases named

theorem parse_error_outside :
    let text : Text := "c one variable\r\np cnf 1 1\r1 0\n 2 0\nx"
    let other : Text := "c one variable\np cnf 1 1\n1 0\x0c 2 0\np"
    let before : Text := "c one variable\np cnf 1 1\n1 0"
    parse text = .error (.literalOutside 4 2 1) ∧ parse other = .error (.literalOutside 4 2 1) ∧
      ∀ e, parse before = .error e → e.line? = none := by
  intro text other before
  have failed : parse text = .error (.literalOutside 4 2 1) := rfl
  obtain ⟨_, _, located, _⟩ := parse_error failed
  obtain ⟨_, _, same, quiet⟩ := located 4 rfl
  exact ⟨failed, same other (by decide), quiet before (by decide)⟩

end Dimacs

end Clausal

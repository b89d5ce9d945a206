import Clausal.Dimacs.Parser
import Clausal.Proofs.Text.Integer
import Clausal.Proofs.Text.Line

/-!
Reading line after line. A line leads to a new state, or it ends the reading, at a percent sign or
with an error. As long as only comments and blank lines are read, nothing changes; any other line
leaves a state in which no problem line is accepted any more.
-/
namespace Clausal.Dimacs

def startsWith (mark : Char) (line : Text) : Bool := line.head? == some (.char mark)

theorem startsWith_cons (mark : Char) (c : CodePoint) (rest : Text) :
    startsWith mark (c :: rest) = (c == .char mark) :=
  rfl

theorem Line.ofText_eq_skip {raw : Text} :
    Line.ofText raw = .skip ↔
      Text.trim raw = [] ∨ ∃ rest, Text.trim raw = .char 'c' :: rest := by
  rw [Line.ofText]
  split
  · rename_i empty
    simp [empty]
  · rename_i rest start
    simp [start]
  · rename_i rest start
    simp [start]
  · rename_i rest start
    simp [start]
  · rename_i some_ comment _ _
    simp only [reduceCtorEq, false_iff, not_or, not_exists]
    exact ⟨some_, comment⟩

theorem Line.ofText_eq_data {raw : Text} {c : CodePoint} {rest : Text}
    (h : Text.trim raw = c :: rest) (comment : c ≠ 'c') (percent : c ≠ '%')
    (problem : c ≠ 'p') : Line.ofText raw = .data (Text.words (Text.trim raw)) := by
  rw [Line.ofText]
  split
  · rename_i empty
    cases h.symm.trans empty
  · rename_i start
    cases h.symm.trans start
    exact absurd rfl comment
  · rename_i start
    cases h.symm.trans start
    exact absurd rfl percent
  · rename_i start
    cases h.symm.trans start
    exact absurd rfl problem
  · rfl

theorem Line.words_of_ofText_eq_data {raw : Text} {words : List Text}
    (h : Line.ofText raw = .data words) : words = Text.words (Text.trim raw) ∧ words ≠ [] := by
  rw [Line.ofText] at h
  split at h
  · cases h
  · cases h
  · cases h
  · cases h
  · rename_i some_ _ _ _
    cases h
    obtain ⟨c, rest, start⟩ := List.exists_cons_of_ne_nil some_
    refine ⟨rfl, ?_⟩
    rw [start]
    exact Text.words_ne_nil (Text.isBlank_of_trim start) rest

/-- The line has four words, the second of them `cnf` and the last two the counts. -/
def Header.IsDeclaredBy (h : Header) (line : Text) : Prop :=
  ∃ mark numVariables numClauses : Text,
    Text.words line = [mark, "cnf", numVariables, numClauses] ∧
    Text.integer? numVariables = some (h.numVariables : Int) ∧
    Text.integer? numClauses = some (h.numClauses : Int)

theorem headerOfText_eq_ok {line : Nat} {text : Text} {h : Header} :
    Header.ofText line text = .ok h ↔ h.IsDeclaredBy text := by
  constructor
  · intro read
    rw [Header.ofText] at read
    split at read
    · rename_i mark format numVariables numClauses words
      split at read
      · rename_i cnf
        subst cnf
        split at read
        · rename_i n m first second
          split at read
          · cases read
          · rename_i natural
            cases read
            refine ⟨mark, numVariables, numClauses, words, ?_, ?_⟩
            · rw [first, Int.toNat_of_nonneg (by omega)]
            · rw [second, Int.toNat_of_nonneg (by omega)]
        · cases read
      · cases read
    · cases read
  · rintro ⟨mark, numVariables, numClauses, words, first, second⟩
    have natural : ¬((h.numVariables : Int) < 0 ∨ (h.numClauses : Int) < 0) := by omega
    simp [Header.ofText, words, first, second, natural]

namespace Scan

/-- A line as a round of reading. -/
def readLine (line : Nat) (s : Scan) (raw : Text) : Scan ⊕ Except DimacsError Scan :=
  match Line.ofText raw with
  | .skip => .inl s
  | .stop => .inr (.ok s)
  | .problem text =>
    match s.readProblem line text with
    | .ok u => .inl u
    | .error e => .inr (.error e)
  | .data words =>
    match s.readWords line words with
    | .ok u => .inl u
    | .error e => .inr (.error e)

/-- Reads lines that others may follow. -/
def readFront (line : Nat) (s : Scan) : List Text → Scan ⊕ Except DimacsError Scan
  | [] => .inl s
  | raw :: rest => (s.readLine line raw).elim (fun u => u.readFront (line + 1) rest) .inr

/-- Nothing but comments and blank lines have been read. -/
def isFresh (s : Scan) : Bool := s.header.isNone && s.closed.isEmpty && s.current.isEmpty

variable {s u : Scan} {line : Nat} {raw : Text} {front rest : List Text}

theorem readLines_cons (line : Nat) (s : Scan) (raw : Text) (rest : List Text) :
    s.readLines line (raw :: rest) =
      (s.readLine line raw).elim (fun u => u.readLines (line + 1) rest) id := by
  rw [readLines, readLine]
  cases Line.ofText raw with
  | skip => rfl
  | stop => rfl
  | problem text =>
      dsimp only
      cases s.readProblem line text <;> rfl
  | data words =>
      dsimp only
      cases s.readWords line words <;> rfl

theorem readLines_append (line : Nat) (s : Scan) (front rest : List Text) :
    s.readLines line (front ++ rest) =
      (s.readFront line front).elim (fun u => u.readLines (line + front.length) rest) id := by
  induction front generalizing line s with
  | nil => rfl
  | cons raw front ih =>
      rw [List.cons_append, readLines_cons, readFront]
      cases s.readLine line raw with
      | inr result => rfl
      | inl u =>
          rw [Sum.elim_inl, Sum.elim_inl, ih, List.length_cons, Nat.add_right_comm, Nat.add_assoc]

theorem readLine_of_skip (h : Line.ofText raw = .skip) (line : Nat) (s : Scan) :
    s.readLine line raw = .inl s := by
  rw [readLine, h]

theorem readFront_of_skip (h : ∀ raw ∈ front, Line.ofText raw = .skip) (line : Nat) (s : Scan) :
    s.readFront line front = .inl s := by
  induction front generalizing line with
  | nil => rfl
  | cons raw front ih =>
      obtain ⟨first, later⟩ := List.forall_mem_cons.1 h
      rw [readFront, readLine_of_skip first, Sum.elim_inl, ih later]

/-- A word that is read closes the clause in progress or adds a literal to it. -/
theorem readWord_eq_ok {word : Text} (h : s.readWord line word = .ok u) :
    ∃ l, Text.integer? word = some l ∧
      (l = 0 ∧ u = { s with closed := s.current.reverse :: s.closed, current := [], start := none } ∨
        l ≠ 0 ∧ s.excludes l = none ∧
          u = { s with current := l :: s.current, start := some (s.start.getD line) }) := by
  rw [readWord] at h
  split at h
  · cases h
  · rename_i l integer
    refine ⟨l, integer, ?_⟩
    split at h
    · rename_i zero
      cases h
      exact .inl ⟨zero, rfl⟩
    · rename_i nonzero
      split at h
      · cases h
      · rename_i admitted
        cases h
        exact .inr ⟨nonzero, admitted, rfl⟩

theorem isFresh_of_readWord {word : Text} (h : s.readWord line word = .ok u) :
    u.isFresh = false := by
  obtain ⟨l, _, ⟨_, rfl⟩ | ⟨_, _, rfl⟩⟩ := readWord_eq_ok h
  · simp [isFresh]
  · simp [isFresh]

theorem isFresh_of_readWords {words : List Text} (some_ : words ≠ [])
    (h : s.readWords line words = .ok u) : u.isFresh = false := by
  induction words generalizing s with
  | nil => exact absurd rfl some_
  | cons word words ih =>
      rw [readWords] at h
      split at h
      · cases h
      · rename_i w first
        cases words with
        | nil =>
            cases h
            exact isFresh_of_readWord first
        | cons => exact ih nofun h

theorem readProblem_eq_ok {text : Text} (h : s.readProblem line text = .ok u) :
    ∃ d, d.IsDeclaredBy text ∧ u = { s with header := some d } := by
  rw [readProblem] at h
  split at h
  · cases h
  · split at h
    · cases h
    · split at h
      · cases h
      · rename_i d declared
        cases h
        exact ⟨d, headerOfText_eq_ok.1 declared, rfl⟩

theorem isFresh_of_readProblem {text : Text} (h : s.readProblem line text = .ok u) :
    u.isFresh = false := by
  obtain ⟨d, _, rfl⟩ := readProblem_eq_ok h
  simp [isFresh]

theorem readLine_eq_inl (h : s.readLine line raw = .inl u) :
    Line.ofText raw = .skip ∧ u = s ∨ u.isFresh = false := by
  rw [readLine] at h
  split at h
  · rename_i skip
    cases h
    exact .inl ⟨skip, rfl⟩
  · cases h
  · split at h
    · rename_i read
      cases h
      exact .inr (isFresh_of_readProblem read)
    · cases h
  · rename_i words data
    split at h
    · rename_i read
      cases h
      exact .inr (isFresh_of_readWords (Line.words_of_ofText_eq_data data).2 read)
    · cases h

/-- Whatever is no comment leaves its trace. -/
theorem readFront_eq_inl (h : s.readFront line front = .inl u) :
    (∀ raw ∈ front, Line.ofText raw = .skip) ∧ u = s ∨ u.isFresh = false := by
  induction front generalizing line s with
  | nil =>
      cases h
      exact .inl ⟨nofun, rfl⟩
  | cons raw front ih =>
      rw [readFront] at h
      cases first : s.readLine line raw with
      | inr result =>
          rw [first] at h
          cases h
      | inl w =>
          rw [first] at h
          rcases ih h with ⟨skips, rfl⟩ | stale
          · rcases readLine_eq_inl first with ⟨skip, same⟩ | stale
            · exact .inl ⟨List.forall_mem_cons.2 ⟨skip, skips⟩, same⟩
            · exact .inr stale
          · exact .inr stale

theorem readProblem_of_stale (stale : s.isFresh = false) (line : Nat) (text : Text) :
    ∃ e, s.readProblem line text = .error e := by
  rw [readProblem]
  cases declared : s.header with
  | some h => exact ⟨_, rfl⟩
  | none =>
      have begun : (!s.closed.isEmpty || !s.current.isEmpty) = true := by
        rw [isFresh, declared, Option.isNone_none, Bool.true_and, Bool.and_eq_false_iff] at stale
        rcases stale with closed | current
        · rw [closed]
          rfl
        · rw [current, Bool.not_false, Bool.or_true]
      rw [Option.isSome_none, if_neg Bool.false_ne_true, if_pos begun]
      exact ⟨_, rfl⟩

theorem readLines_problem_of_stale (stale : s.isFresh = false) {text : Text}
    (h : Line.ofText raw = .problem text) (line : Nat) (rest : List Text) :
    ∃ e, s.readLines line (raw :: rest) = .error e := by
  obtain ⟨e, refused⟩ := readProblem_of_stale stale line text
  rw [readLines_cons, readLine, h]
  dsimp only
  rw [refused]
  exact ⟨e, rfl⟩

end Scan

end Clausal.Dimacs

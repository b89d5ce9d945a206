import Clausal.Proofs.Dimacs.Written

/-!
Which texts are read, and as what. A text is seen as its lines that are not skipped: a problem line,
if there is one, and after it data lines, whose words are integers with zeros between the clauses.
A text is read exactly if it has that form and keeps what its problem line declares, and then the
formula depends on nothing else: not on line ends, comments, or where a line breaks.
-/
namespace Clausal.Dimacs

/-- The trimmed lines before the first one with a percent sign, without blank ones and comments. -/
def contentLines (raws : List Text) : List Text :=
  ((raws.map Text.trim).takeWhile fun line => !startsWith '%' line).filter fun line =>
    !line.isEmpty && !startsWith 'c' line

def problemLines (content : List Text) : List Text := content.filter (startsWith 'p')

def dataLines (content : List Text) : List Text := content.filter fun line => !startsWith 'p' line

def dataWords (content : List Text) : List Text := (dataLines content).flatMap Text.words

/-- Integers cut at each 0. What follows the last 0 is a clause only if it is not empty. -/
def splitClauses (integers : List Int) : List (List Int) :=
  let pieces := integers.splitOn 0
  if pieces.getLast? = some [] then pieces.dropLast else pieces

/-- The form that content must have: at most one problem line, no data line before it, and all words
of the data lines integers whose variables are declared. -/
structure Layout (content : List Text) (header : Option Header) (integers : List Int) : Prop where
  ordered : content = problemLines content ++ dataLines content
  declared : List.Forall₂ Header.IsDeclaredBy header.toList (problemLines content)
  words : (dataWords content).map Text.integer? = integers.map some
  bounded : ∀ h ∈ header, ∀ l ∈ integers, Literal.var l ≤ h.numVariables

/-- A layout with as many clauses as are declared. -/
structure Outline (content : List Text) (header : Option Header) (integers : List Int) : Prop
    extends Layout content header integers where
  counted : ∀ h ∈ header, (splitClauses integers).length = h.numClauses

variable {text raw line : Text} {raws content : List Text} {header : Option Header}
  {integers : List Int}

theorem Header.IsDeclaredBy.unique {g h : Header} {line : Text} (first : g.IsDeclaredBy line)
    (second : h.IsDeclaredBy line) : g = h := by
  have read : Header.ofText 0 line = .ok g := headerOfText_eq_ok.2 first
  rw [headerOfText_eq_ok.2 second] at read
  exact (Except.ok.inj read).symm

section Content

variable (marked : startsWith 'p' line = true) (unmarked : startsWith 'p' line = false)

include marked in
theorem problemLines_cons_of_marked (content : List Text) :
    problemLines (line :: content) = line :: problemLines content :=
  List.filter_cons_of_pos marked

include marked in
theorem dataLines_cons_of_marked (content : List Text) :
    dataLines (line :: content) = dataLines content :=
  List.filter_cons_of_neg (by simp [marked])

include unmarked in
theorem problemLines_cons_of_unmarked (content : List Text) :
    problemLines (line :: content) = problemLines content :=
  List.filter_cons_of_neg (by simp [unmarked])

include unmarked in
theorem dataLines_cons_of_unmarked (content : List Text) :
    dataLines (line :: content) = line :: dataLines content :=
  List.filter_cons_of_pos (by simp [unmarked])

include unmarked in
/-- Problem lines come first, so there is none if the first line is not one. -/
theorem problemLines_eq_nil
    (ordered : line :: content = problemLines (line :: content) ++ dataLines (line :: content)) :
    problemLines content = [] := by
  rw [problemLines_cons_of_unmarked unmarked] at ordered
  cases problems : problemLines content with
  | nil => rfl
  | cons first rest =>
      rw [problems] at ordered
      have mem : line ∈ problemLines content := by
        rw [problems, (List.cons.inj ordered).1]
        exact List.mem_cons_self
      have marked := List.of_mem_filter mem
      rw [unmarked] at marked
      cases marked

theorem dataLines_eq_self (h : problemLines content = []) : dataLines content = content := by
  refine List.filter_eq_self.2 fun line hline => ?_
  simpa using List.filter_eq_nil_iff.1 h line hline

end Content

/-- What a line adds to the content of the lines behind it. -/
inductive Adds (raw : Text) (raws : List Text) : Line → Prop where
  | skip (same : contentLines (raw :: raws) = contentLines raws) : Adds raw raws .skip
  | stop (last : contentLines (raw :: raws) = []) : Adds raw raws .stop
  | problem {text : Text} (marked : startsWith 'p' text = true)
      (more : contentLines (raw :: raws) = text :: contentLines raws) :
      Adds raw raws (.problem text)
  | data {text : Text} (unmarked : startsWith 'p' text = false) (some_ : Text.words text ≠ [])
      (more : contentLines (raw :: raws) = text :: contentLines raws) :
      Adds raw raws (.data (Text.words text))

theorem contentLines_cons (raw : Text) (raws : List Text) :
    contentLines (raw :: raws) =
      if startsWith '%' (Text.trim raw) then []
      else if (Text.trim raw).isEmpty || startsWith 'c' (Text.trim raw) then contentLines raws
      else Text.trim raw :: contentLines raws := by
  simp only [contentLines, List.map_cons, List.takeWhile_cons, ← Bool.not_or]
  cases startsWith '%' (Text.trim raw) with
  | true => rfl
  | false =>
      simp only [Bool.not_false, if_true, List.filter_cons]
      cases (Text.trim raw).isEmpty || startsWith 'c' (Text.trim raw) <;> simp

theorem adds_ofText (raw : Text) (raws : List Text) : Adds raw raws (Line.ofText raw) := by
  have cons := contentLines_cons raw raws
  rw [Line.ofText]
  cases start : Text.trim raw with
  | nil =>
      rw [start] at cons
      exact .skip cons
  | cons c rest =>
      rw [start] at cons
      simp only [startsWith_cons, List.isEmpty_cons, Bool.false_or, beq_iff_eq] at cons
      by_cases comment : c = .char 'c'
      · subst comment
        exact .skip cons
      · by_cases percent : c = .char '%'
        · subst percent
          exact .stop cons
        · by_cases problem : c = .char 'p'
          · subst problem
            exact .problem rfl cons
          · rw [if_neg percent, if_neg comment] at cons
            have dense : Text.isBlank c = false := Text.isBlank_of_trim start
            have role : Line.ofText raw = .data (Text.words (c :: rest)) :=
              start ▸ Line.ofText_eq_data start comment percent problem
            rw [Line.ofText, start] at role
            rw [role]
            have unmarked : startsWith 'p' (c :: rest) = false := by
              simpa [startsWith_cons] using problem
            exact .data unmarked (Text.words_ne_nil dense rest) cons

namespace Scan

variable {s t u : Scan} {line : Nat}

/-- The integers that have been read, zeros included. -/
def read (s : Scan) : List Int := s.closed.reverse.flatMap (· ++ [0]) ++ s.current.reverse

/-- Zeros only stand between clauses. -/
def Divided (s : Scan) : Prop := ∀ c ∈ s.current :: s.closed, ∀ l ∈ c, l ≠ 0

/-- Reading the integers leads from one state to the other. -/
structure Reads (s : Scan) (integers : List Int) (u : Scan) : Prop where
  header : u.header = s.header
  read : u.read = s.read ++ integers
  divided : s.Divided → u.Divided
  bounded : ∀ h ∈ s.header, ∀ l ∈ integers, Literal.var l ≤ h.numVariables

theorem Reads.refl (s : Scan) : Reads s [] s :=
  ⟨rfl, (List.append_nil _).symm, id, nofun⟩

theorem Reads.trans {first second : List Int} (st : Reads s first t) (tu : Reads t second u) :
    Reads s (first ++ second) u := by
  refine ⟨tu.header.trans st.header, ?_, fun divided => tu.divided (st.divided divided), ?_⟩
  · rw [tu.read, st.read, List.append_assoc]
  · intro h declared l hl
    rcases List.mem_append.1 hl with hl | hl
    · exact st.bounded h declared l hl
    · exact tu.bounded h (st.header ▸ declared) l hl

theorem excludes_eq_none {l : Int} :
    s.excludes l = none ↔ ∀ h ∈ s.header, Literal.var l ≤ h.numVariables := by
  rw [excludes]
  cases s.header with
  | none => simp
  | some h => simp

theorem reads_of_readWord {word : Text} (h : s.readWord line word = .ok u) :
    ∃ l, Text.integer? word = some l ∧ Reads s [l] u := by
  obtain ⟨l, integer, ⟨rfl, rfl⟩ | ⟨nonzero, admitted, rfl⟩⟩ := readWord_eq_ok h
  · refine ⟨0, integer, rfl, ?_, ?_, ?_⟩
    · simp [read]
    · intro divided
      obtain ⟨current, closed⟩ := List.forall_mem_cons.1 divided
      refine List.forall_mem_cons.2
        ⟨List.forall_mem_nil _, List.forall_mem_cons.2 ⟨?_, closed⟩⟩
      intro l hl
      exact current l (List.mem_reverse.1 hl)
    · intro h _ l hl
      simp at hl
      simp [hl, Literal.var]
  · refine ⟨l, integer, rfl, ?_, ?_, ?_⟩
    · simp [read]
    · intro divided
      obtain ⟨current, closed⟩ := List.forall_mem_cons.1 divided
      exact List.forall_mem_cons.2 ⟨List.forall_mem_cons.2 ⟨nonzero, current⟩, closed⟩
    · intro h declared k hk
      rw [List.mem_singleton.1 hk]
      exact excludes_eq_none.1 admitted h declared

theorem exists_readWord {word : Text} {l : Int} (integer : Text.integer? word = some l)
    (bounded : ∀ h ∈ s.header, Literal.var l ≤ h.numVariables) (line : Nat) :
    ∃ u, s.readWord line word = .ok u := by
  rw [readWord, integer]
  dsimp only
  rw [excludes_eq_none.2 bounded]
  split
  · exact ⟨_, rfl⟩
  · exact ⟨_, rfl⟩

theorem reads_of_readWords {words : List Text} (h : s.readWords line words = .ok u) :
    ∃ integers, words.map Text.integer? = integers.map some ∧ Reads s integers u := by
  induction words generalizing s with
  | nil =>
      cases h
      exact ⟨[], rfl, .refl _⟩
  | cons word words ih =>
      rw [readWords] at h
      split at h
      · cases h
      · rename_i t first
        obtain ⟨l, integer, st⟩ := reads_of_readWord first
        obtain ⟨later, integers, tu⟩ := ih h
        refine ⟨l :: later, ?_, st.trans tu⟩
        rw [List.map_cons, List.map_cons, integer, integers]

theorem exists_readWords {words : List Text} {integers : List Int}
    (read : words.map Text.integer? = integers.map some)
    (bounded : ∀ h ∈ s.header, ∀ l ∈ integers, Literal.var l ≤ h.numVariables) (line : Nat) :
    ∃ u, s.readWords line words = .ok u := by
  induction words generalizing s integers with
  | nil => exact ⟨s, rfl⟩
  | cons word words ih =>
      cases integers with
      | nil => cases read
      | cons l integers =>
          obtain ⟨first, later⟩ := List.cons.inj read
          obtain ⟨t, done⟩ := exists_readWord first
            (fun h declared => bounded h declared l List.mem_cons_self) line
          obtain ⟨k, integer, st⟩ := reads_of_readWord done
          obtain ⟨u, rest⟩ := ih later fun h declared k hk =>
            bounded h (st.header ▸ declared) k (List.mem_cons_of_mem l hk)
          refine ⟨u, ?_⟩
          rw [readWords, done]
          exact rest

theorem readProblem_start {text : Text} :
    readProblem line {} text = .ok u ↔ ∃ d, d.IsDeclaredBy text ∧ u = { header := some d } := by
  have opens : readProblem line {} text =
      (Header.ofText line text).map fun d => { header := some d } := by
    rw [readProblem]
    cases Header.ofText line text <;> rfl
  rw [opens]
  constructor
  · intro h
    cases read : Header.ofText line text with
    | error e =>
        rw [read] at h
        cases h
    | ok d =>
        rw [read] at h
        cases h
        exact ⟨d, headerOfText_eq_ok.1 read, rfl⟩
  · rintro ⟨d, declared, rfl⟩
    rw [headerOfText_eq_ok.2 declared]
    rfl

/-- The content is data lines alone, and reading their words leads from one state to the other. -/
def ReadsData (s : Scan) (content : List Text) (u : Scan) : Prop :=
  problemLines content = [] ∧
    ∃ integers, (dataWords content).map Text.integer? = integers.map some ∧ Reads s integers u

theorem ReadsData.nil (s : Scan) : ReadsData s [] s :=
  ⟨rfl, [], rfl, .refl s⟩

theorem ReadsData.cons {line : Text} (unmarked : startsWith 'p' line = false)
    (words : (Text.words line).map Text.integer? = integers.map some) (st : Reads s integers t)
    (tu : ReadsData t content u) : ReadsData s (line :: content) u := by
  obtain ⟨none_, after, later, tu⟩ := tu
  rw [ReadsData, problemLines_cons_of_unmarked unmarked, dataWords,
    dataLines_cons_of_unmarked unmarked, List.flatMap_cons, List.map_append, words]
  refine ⟨none_, integers ++ after, ?_, st.trans tu⟩
  rw [List.map_append, ← later]
  rfl

/-- Data lines that are read from the start are a layout of their own. -/
theorem ReadsData.layout (h : ReadsData {} content u) :
    Layout content u.header u.read ∧ u.Divided := by
  obtain ⟨none_, integers, words, reads⟩ := h
  have same : u.read = integers := reads.read
  rw [reads.header, same]
  refine ⟨⟨?_, ?_, words, reads.bounded⟩, reads.divided (by simp [Divided])⟩
  · rw [none_, dataLines_eq_self none_, List.nil_append]
  · rw [none_]
    exact .nil

/-- So are a problem line and the data lines that are read after it. -/
theorem ReadsData.layout_cons {line : Text} {d : Header} (marked : startsWith 'p' line = true)
    (declared : d.IsDeclaredBy line) (h : ReadsData { header := some d } content u) :
    Layout (line :: content) u.header u.read ∧ u.Divided := by
  obtain ⟨none_, integers, words, reads⟩ := h
  have same : u.read = integers := reads.read
  rw [reads.header, same]
  refine ⟨⟨?_, ?_, ?_, reads.bounded⟩, reads.divided (by simp [Divided])⟩
  · rw [problemLines_cons_of_marked marked, dataLines_cons_of_marked marked, none_,
      dataLines_eq_self none_]
    rfl
  · rw [problemLines_cons_of_marked marked, none_]
    exact .cons declared .nil
  · rw [dataWords, dataLines_cons_of_marked marked]
    exact words

/-- Once something has been read, only data lines are. -/
theorem readsData_of_readLines (stale : s.isFresh = false) (h : s.readLines line raws = .ok u) :
    ReadsData s (contentLines raws) u := by
  induction raws generalizing line s with
  | nil =>
      cases h
      exact .nil _
  | cons raw raws ih =>
      have adds := adds_ofText raw raws
      rw [readLines] at h
      generalize Line.ofText raw = kind at adds h
      cases adds with
      | skip same =>
          rw [same]
          exact ih stale h
      | stop last =>
          cases h
          rw [last]
          exact .nil _
      | @problem text marked more =>
          obtain ⟨e, refused⟩ := readProblem_of_stale stale line text
          dsimp only at h
          rw [refused] at h
          cases h
      | data unmarked some_ more =>
          dsimp only at h
          split at h
          · cases h
          · rename_i t first
            obtain ⟨integers, words, st⟩ := reads_of_readWords first
            rw [more]
            exact .cons unmarked words st (ih (isFresh_of_readWords some_ first) h)

theorem exists_readLines (data : problemLines (contentLines raws) = [])
    (words : (dataWords (contentLines raws)).map Text.integer? = integers.map some)
    (bounded : ∀ h ∈ s.header, ∀ l ∈ integers, Literal.var l ≤ h.numVariables) (line : Nat) :
    ∃ u, s.readLines line raws = .ok u := by
  induction raws generalizing line s integers with
  | nil => exact ⟨s, rfl⟩
  | cons raw raws ih =>
      have adds := adds_ofText raw raws
      rw [readLines]
      generalize Line.ofText raw = kind at adds
      cases adds with
      | skip same =>
          rw [same] at data words
          exact ih data words bounded (line + 1)
      | stop last => exact ⟨s, rfl⟩
      | problem marked more =>
          rw [more, problemLines_cons_of_marked marked] at data
          cases data
      | data unmarked some_ more =>
          rw [more, problemLines_cons_of_unmarked unmarked] at data
          rw [more, dataWords, dataLines_cons_of_unmarked unmarked, List.flatMap_cons,
            List.map_append] at words
          obtain ⟨before, after, rfl, first, later⟩ := List.map_eq_append_iff.1 words.symm
          obtain ⟨t, done⟩ := exists_readWords first.symm
            (fun h declared l hl => bounded h declared l (List.mem_append_left after hl)) line
          obtain ⟨_, _, st⟩ := reads_of_readWords done
          obtain ⟨u, rest⟩ := ih data later.symm
            (fun h declared l hl => bounded h (st.header ▸ declared) l
              (List.mem_append_right before hl)) (line + 1)
          refine ⟨u, ?_⟩
          dsimp only
          rw [done]
          exact rest

/-- What reading from the start says about the lines. -/
theorem layout_of_readLines (h : readLines line {} raws = .ok u) :
    Layout (contentLines raws) u.header u.read ∧ u.Divided := by
  induction raws generalizing line with
  | nil =>
      cases h
      exact (ReadsData.nil {}).layout
  | cons raw raws ih =>
      have adds := adds_ofText raw raws
      rw [readLines] at h
      generalize Line.ofText raw = kind at adds h
      cases adds with
      | skip same =>
          rw [same]
          exact ih h
      | stop last =>
          cases h
          rw [last]
          exact (ReadsData.nil {}).layout
      | problem marked more =>
          dsimp only at h
          split at h
          · cases h
          · rename_i t opened
            obtain ⟨d, declared, rfl⟩ := readProblem_start.1 opened
            rw [more]
            exact (readsData_of_readLines rfl h).layout_cons marked declared
      | data unmarked some_ more =>
          dsimp only at h
          split at h
          · cases h
          · rename_i t first
            obtain ⟨integers, words, st⟩ := reads_of_readWords first
            have rest := readsData_of_readLines (isFresh_of_readWords some_ first) h
            rw [more]
            exact (ReadsData.cons unmarked words st rest).layout

theorem exists_readLines_start (layout : Layout (contentLines raws) header integers) (line : Nat) :
    ∃ u, readLines line {} raws = .ok u := by
  induction raws generalizing line with
  | nil => exact ⟨{}, rfl⟩
  | cons raw raws ih =>
      cases header with
      | none =>
          -- All lines are data lines, which any state reads.
          have declared := layout.declared
          generalize none_ : problemLines (contentLines (raw :: raws)) = problems at declared
          cases declared
          exact exists_readLines none_ layout.words layout.bounded line
      | some d =>
          have adds := adds_ofText raw raws
          rw [readLines]
          generalize Line.ofText raw = kind at adds
          cases adds with
          | skip same =>
              rw [same] at layout
              exact ih layout (line + 1)
          | stop last => exact ⟨{}, rfl⟩
          | @problem text marked more =>
              rw [more] at layout
              obtain ⟨_, declared, words, bounded⟩ := layout
              rw [problemLines_cons_of_marked marked] at declared
              rw [dataWords, dataLines_cons_of_marked marked] at words
              generalize none_ : problemLines (contentLines raws) = later at declared
              cases declared with
              | cons first others =>
                  cases others
                  have opened : readProblem line {} text = .ok { header := some d } :=
                    readProblem_start.2 ⟨d, first, rfl⟩
                  obtain ⟨u, read⟩ := exists_readLines (s := { header := some d }) none_ words
                    bounded (line + 1)
                  refine ⟨u, ?_⟩
                  dsimp only
                  rw [opened]
                  exact read
          | data unmarked some_ more =>
              have ordered := layout.ordered
              have declared := layout.declared
              rw [more] at ordered declared
              rw [problemLines_cons_of_unmarked unmarked, problemLines_eq_nil unmarked ordered]
                at declared
              cases declared

/-- Clauses with a zero behind each but the last are what lies between the zeros. -/
theorem splitOn_closed {closed : List (List Int)} {last : List Int}
    (nonzero : ∀ c ∈ closed, ∀ l ∈ c, l ≠ 0) (unclosed : ∀ l ∈ last, l ≠ 0) :
    (closed.flatMap (· ++ [0]) ++ last).splitOn 0 = closed ++ [last] := by
  rw [List.splitOn]
  induction closed with
  | nil => exact List.splitOnP_eq_singleton fun l hl => by simpa using unclosed l hl
  | cons c closed ih =>
      obtain ⟨first, later⟩ := List.forall_mem_cons.1 nonzero
      have one : c.splitOnP (· == 0) = [c] :=
        List.splitOnP_eq_singleton fun l hl => by simpa using first l hl
      rw [List.flatMap_cons, List.append_assoc, List.append_assoc, List.singleton_append,
        List.splitOnP_append_cons _ _ (by simp), one, ih later]
      rfl

theorem splitClauses_read (divided : s.Divided) : splitClauses s.read = s.clauses := by
  obtain ⟨current, closed⟩ := List.forall_mem_cons.1 divided
  have pieces : s.read.splitOn 0 = s.closed.reverse ++ [s.current.reverse] :=
    splitOn_closed (fun c hc => closed c (List.mem_reverse.1 hc))
      (fun l hl => current l (List.mem_reverse.1 hl))
  rw [splitClauses, pieces, clauses]
  cases s.current with
  | nil => simp
  | cons l current => simp

theorem mem_read (s : Scan) : ∀ c ∈ s.clauses, ∀ l ∈ c, l ∈ s.read := by
  refine forall_mem_clauses fun c hc l hl => ?_
  rw [read, List.mem_append, List.mem_flatMap]
  cases hc with
  | head => exact .inr (List.mem_reverse.2 hl)
  | tail _ hc => exact .inl ⟨c, List.mem_reverse.2 hc, List.mem_append_left [0] hl⟩

/-- What is built from a state that has been reached. -/
theorem exists_toFormula (divided : s.Divided)
    (bounded : ∀ h ∈ s.header, ∀ l ∈ s.read, Literal.var l ≤ h.numVariables)
    (counted : ∀ h ∈ s.header, s.clauses.length = h.numClauses) :
    ∃ f, Formula.ofLists s.clauses (s.header.map fun h => (h.numVariables : Int)) = .ok f ∧
      s.toFormula = .ok f := by
  have nonzero := forall_mem_clauses divided
  rw [toFormula]
  cases header : s.header with
  | none =>
      have fits : ∀ n ∈ (none : Option Nat), ∀ c ∈ s.clauses, ∀ l ∈ c, Literal.var l ≤ n :=
        fun _ declared => absurd declared (Option.not_mem_none _)
      obtain ⟨f, built⟩ := Formula.exists_ofLists nonzero fits
      exact ⟨f, built, congrArg (Except.mapError _) built⟩
  | some h =>
      have fits : ∀ n ∈ some h.numVariables, ∀ c ∈ s.clauses, ∀ l ∈ c, Literal.var l ≤ n := by
        rintro n ⟨⟩ c hc l hl
        exact bounded h header l (s.mem_read c hc l hl)
      obtain ⟨f, built⟩ := Formula.exists_ofLists nonzero fits
      refine ⟨f, built, ?_⟩
      dsimp only
      rw [if_pos (counted h header)]
      exact congrArg (Except.mapError _) built

end Scan

theorem Layout.unique {first second : Option Header} {firsts seconds : List Int}
    (l : Layout content first firsts) (r : Layout content second seconds) :
    first = second ∧ firsts = seconds := by
  constructor
  · have one := l.declared
    have other := r.declared
    generalize problemLines content = problems at one other
    cases first with
    | none =>
        cases one
        cases second with
        | none => rfl
        | some h => cases other
    | some g =>
        cases one with
        | cons declared _ =>
            cases second with
            | none => cases other
            | some h =>
                cases other with
                | cons redeclared _ => rw [declared.unique redeclared]
  · exact List.map_injective_iff.2 (fun _ _ => Option.some.inj) (l.words.symm.trans r.words)

theorem exists_outline {f : Formula} (h : parse text = .ok f) :
    ∃ header integers, Outline (contentLines (Text.lines text)) header integers := by
  rw [parse] at h
  split at h
  · cases h
  · rename_i s read
    obtain ⟨layout, divided⟩ := Scan.layout_of_readLines read
    obtain ⟨_, _, declared⟩ := toFormula_eq_ok h
    refine ⟨s.header, s.read, layout, fun d header => ?_⟩
    rw [Scan.splitClauses_read divided]
    exact (declared d header).2

theorem exists_parse (outline : Outline (contentLines (Text.lines text)) header integers) :
    ∃ f, Formula.ofLists (splitClauses integers)
        (header.map fun h => (h.numVariables : Int)) = .ok f ∧
      parse text = .ok f := by
  obtain ⟨s, read⟩ := Scan.exists_readLines_start outline.toLayout 1
  obtain ⟨layout, divided⟩ := Scan.layout_of_readLines read
  obtain ⟨rfl, rfl⟩ := layout.unique outline.toLayout
  rw [Scan.splitClauses_read divided]
  have counted := outline.counted
  rw [Scan.splitClauses_read divided] at counted
  obtain ⟨f, built, result⟩ := Scan.exists_toFormula divided outline.bounded counted
  refine ⟨f, built, ?_⟩
  rw [parse, scan, read]
  exact result

/-- A text is read exactly if its content has an outline, and the formula is then built from the
declared variable count and the integers, whatever else is in the text. -/
theorem parse_spec (text : Text) :
    ((∃ f, parse text = .ok f) ↔
      ∃ header integers, Outline (contentLines (Text.lines text)) header integers) ∧
    ∀ header integers, Outline (contentLines (Text.lines text)) header integers →
      ∃ f, Formula.ofLists (splitClauses integers)
          (header.map fun h => (h.numVariables : Int)) = .ok f ∧
        ∀ other, Outline (contentLines (Text.lines other)) header integers →
          parse other = .ok f := by
  refine ⟨⟨?_, ?_⟩, ?_⟩
  · rintro ⟨f, read⟩
    exact exists_outline read
  · rintro ⟨header, integers, outline⟩
    obtain ⟨f, _, read⟩ := exists_parse outline
    exact ⟨f, read⟩
  · intro header integers outline
    obtain ⟨f, built, _⟩ := exists_parse outline
    refine ⟨f, built, fun other same => ?_⟩
    obtain ⟨g, rebuilt, read⟩ := exists_parse same
    rw [built] at rebuilt
    cases rebuilt
    exact read

theorem parse_spec_percent :
    let text : Text := "c two clauses\nproblem cnf 2 2\n 1 -2\n\n0 2\n%\n0"
    let other : Text := "p cnf +2 02\r1 -2 0 2"
    ∃ f, parse text = .ok f ∧ parse other = .ok f := by
  intro text other
  have content : contentLines (Text.lines text) =
      ["problem cnf 2 2", "1 -2", "0 2"].map Text.ofString := by decide
  have tight : contentLines (Text.lines other) =
      ["p cnf +2 02", "1 -2 0 2"].map Text.ofString := by decide
  have outline : Outline (contentLines (Text.lines text)) (some ⟨2, 2⟩) [1, -2, 0, 2] := by
    rw [content]
    have problem : Header.IsDeclaredBy ⟨2, 2⟩ "problem cnf 2 2" :=
      ⟨"problem", "2", "2", by decide, by decide, by decide⟩
    exact ⟨⟨by decide, .cons problem .nil, by decide, by decide⟩, by decide⟩
  have same : Outline (contentLines (Text.lines other)) (some ⟨2, 2⟩) [1, -2, 0, 2] := by
    rw [tight]
    have problem : Header.IsDeclaredBy ⟨2, 2⟩ "p cnf +2 02" :=
      ⟨"p", "+2", "02", by decide, by decide, by decide⟩
    exact ⟨⟨by decide, .cons problem .nil, by decide, by decide⟩, by decide⟩
  obtain ⟨f, _, read⟩ := (parse_spec text).2 _ _ outline
  exact ⟨f, read text outline, read other same⟩

end Clausal.Dimacs

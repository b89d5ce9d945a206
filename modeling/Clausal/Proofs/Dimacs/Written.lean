import Clausal.Proofs.Dimacs.Scan
import Clausal.Proofs.Reading

/-!
What is read can be written. Words with too many digits are refused, so no integer grows too large
on the way from the text to the formula, and a text has no more clauses than code points.
-/
namespace Clausal

/-- The counts of the formula can be written; its literals are no larger than its variable count. -/
structure Formula.IsWritable (f : Formula) : Prop where
  numVariables : Datum.isWritable f.numVariables = true
  numClauses : Datum.isWritable f.numClauses = true

theorem Formula.isSayable_iff {f : Formula} : f.isSayable = true ↔ f.IsWritable := by
  rw [isSayable, Bool.and_eq_true]
  exact ⟨fun ⟨n, m⟩ => ⟨n, m⟩, fun w => ⟨w.numVariables, w.numClauses⟩⟩

theorem Formula.IsWritable.literal {f : Formula} (w : f.IsWritable) {c : Clause} {l : Literal}
    (hc : c ∈ f.clauses) (hl : l ∈ c) : Datum.isWritable l = true := by
  have bound := Text.isWritable_iff.1 w.numVariables
  rw [Int.natAbs_natCast] at bound
  exact Text.isWritable_iff.2 (Nat.lt_of_le_of_lt (f.var_le_of_mem hc hl) bound)

namespace Dimacs

namespace Scan

variable {s u : Scan} {line k : Nat} {raw : Text}

/-- What has been read from at most `k` words: integers that can be written, and no more than `k`
clauses. -/
structure Written (k : Nat) (s : Scan) : Prop where
  declared : ∀ h ∈ s.header, Datum.isWritable h.numVariables = true
  literals : ∀ c ∈ s.current :: s.closed, ∀ l ∈ c, Datum.isWritable l = true
  count : s.clauses.length ≤ k

theorem length_clauses (s : Scan) :
    s.clauses.length = s.closed.length + if s.current.isEmpty then 0 else 1 := by
  rw [clauses, List.length_reverse]
  split <;> rfl

theorem written_start : Written 0 {} where
  declared := nofun
  literals := by simp
  count := Nat.le_refl 0

theorem forall_mem_clauses {p : Int → Prop} (h : ∀ c ∈ s.current :: s.closed, ∀ l ∈ c, p l) :
    ∀ c ∈ s.clauses, ∀ l ∈ c, p l := by
  obtain ⟨current, closed⟩ := List.forall_mem_cons.1 h
  intro c hc
  rw [clauses, List.mem_reverse] at hc
  split at hc
  · exact closed c hc
  · rcases List.mem_cons.1 hc with rfl | hc
    · exact fun l hl => current l (List.mem_reverse.1 hl)
    · exact closed c hc

theorem Written.clauses (w : s.Written k) :
    ∀ c ∈ s.clauses, ∀ l ∈ c, Datum.isWritable l = true :=
  forall_mem_clauses w.literals

theorem Written.mono {m : Nat} (w : s.Written k) (h : k ≤ m) : s.Written m :=
  ⟨w.declared, w.literals, Nat.le_trans w.count h⟩

theorem Written.readWord {word : Text} (w : s.Written k) (h : s.readWord line word = .ok u) :
    u.Written (k + 1) := by
  have counted := w.count
  rw [length_clauses] at counted
  obtain ⟨current, closed⟩ := List.forall_mem_cons.1 w.literals
  obtain ⟨l, integer, ⟨_, rfl⟩ | ⟨_, _, rfl⟩⟩ := readWord_eq_ok h
  · refine ⟨w.declared, ?_, ?_⟩
    · refine List.forall_mem_cons.2 ⟨List.forall_mem_nil _, List.forall_mem_cons.2 ⟨?_, closed⟩⟩
      exact fun l hl => current l (List.mem_reverse.1 hl)
    · rw [length_clauses]
      simp only [List.length_cons, List.isEmpty_nil, if_true]
      omega
  · refine ⟨w.declared, ?_, ?_⟩
    · refine List.forall_mem_cons.2 ⟨List.forall_mem_cons.2 ⟨?_, current⟩, closed⟩
      exact Text.isWritable_of_integer? integer
    · rw [length_clauses]
      simp only [List.isEmpty_cons, Bool.false_eq_true, if_false]
      omega

theorem Written.readWords {words : List Text} (w : s.Written k)
    (h : s.readWords line words = .ok u) : u.Written (k + words.length) := by
  induction words generalizing s k with
  | nil =>
      cases h
      exact w
  | cons word words ih =>
      rw [Scan.readWords] at h
      split at h
      · cases h
      · rename_i t first
        rw [List.length_cons, Nat.add_comm words.length, ← Nat.add_assoc]
        exact ih (w.readWord first) h

theorem Written.readProblem {text : Text} (w : s.Written k)
    (h : s.readProblem line text = .ok u) : u.Written k := by
  obtain ⟨d, ⟨_, _, _, _, numVariables, _⟩, rfl⟩ := readProblem_eq_ok h
  refine ⟨?_, w.literals, w.count⟩
  rintro _ ⟨⟩
  exact Text.isWritable_of_integer? numVariables

theorem Written.readLine (w : s.Written k) (h : (s.readLine line raw).elim .ok id = .ok u) :
    u.Written (k + raw.length) := by
  rw [Scan.readLine] at h
  split at h
  · cases h
    exact w.mono (Nat.le_add_right _ _)
  · cases h
    exact w.mono (Nat.le_add_right _ _)
  · split at h
    · rename_i read
      cases h
      exact (w.readProblem read).mono (Nat.le_add_right _ _)
    · cases h
  · rename_i words data
    split at h
    · rename_i read
      cases h
      obtain ⟨rfl, _⟩ := Line.words_of_ofText_eq_data data
      have words := Text.length_words_le (Text.trim raw)
      have trimmed := Text.length_trim_le raw
      exact (w.readWords read).mono (by omega)
    · cases h

theorem Written.readLines {raws : List Text} (w : s.Written k)
    (h : s.readLines line raws = .ok u) : u.Written (k + (raws.map List.length).sum) := by
  induction raws generalizing line s k with
  | nil =>
      cases h
      exact w
  | cons raw raws ih =>
      rw [readLines_cons] at h
      rw [List.map_cons, List.sum_cons, ← Nat.add_assoc]
      cases first : s.readLine line raw with
      | inl t =>
          rw [first] at h
          exact ih (w.readLine (congrArg _ first)) h
      | inr result =>
          rw [first] at h
          exact (w.readLine ((congrArg _ first).trans h)).mono (Nat.le_add_right _ _)

end Scan

theorem written_of_scan {text : Text} {s : Scan} (h : scan text = .ok s) : s.Written text.length :=
  (Scan.written_start.readLines h).mono (by
    rw [Nat.zero_add]
    exact Text.sum_length_lines text)

variable {f : Formula}

theorem toFormula_eq_ok {s : Scan} (h : s.toFormula = .ok f) :
    f.clauses = s.clauses.map Clause.normalize ∧
      (s.header = none → f.numVariables = Formula.largestVariable s.clauses) ∧
      ∀ d, s.header = some d →
        f.numVariables = d.numVariables ∧ s.clauses.length = d.numClauses := by
  have built {count : Option Int}
      (h : (Formula.ofLists s.clauses count).mapError DimacsError.formula = .ok f) :
      Formula.ofLists s.clauses count = .ok f := by
    cases read : Formula.ofLists s.clauses count with
    | error e =>
        rw [read] at h
        cases h
    | ok g =>
        rw [read] at h
        cases h
        rfl
  rw [Scan.toFormula] at h
  split at h
  · rename_i undeclared
    obtain ⟨clauses, inferred, _⟩ := Formula.ofLists_eq_ok (built h)
    refine ⟨clauses, fun _ => inferred rfl, fun d declared => ?_⟩
    cases undeclared.symm.trans declared
  · rename_i d declared
    split at h
    · rename_i counted
      obtain ⟨clauses, _, given⟩ := Formula.ofLists_eq_ok (built h)
      refine ⟨clauses, fun undeclared => ?_, fun d' declared' => ?_⟩
      · cases declared.symm.trans undeclared
      · cases declared.symm.trans declared'
        exact ⟨given _ rfl, counted⟩
    · cases h

theorem isWritable_of_parse {text : Text} (short : text.length < 10 ^ Text.maxDigits)
    (h : parse text = .ok f) : f.IsWritable := by
  rw [parse] at h
  split at h
  · cases h
  · rename_i s read
    have written := written_of_scan read
    obtain ⟨clauses, inferred, declared⟩ := toFormula_eq_ok h
    constructor
    · cases header : s.header with
      | none =>
          rw [inferred header]
          refine Text.isWritable_iff.2 ?_
          rw [Int.natAbs_natCast]
          refine Formula.largestVariable_lt (Nat.pow_pos (by decide)) fun c hc l hl => ?_
          exact Text.isWritable_iff.1 (written.clauses c hc l hl)
      | some d =>
          rw [(declared d header).1]
          exact written.declared d header
    · refine Text.isWritable_iff.2 (Nat.lt_of_le_of_lt ?_ short)
      rw [Int.natAbs_natCast, Formula.numClauses, clauses, List.length_map]
      exact written.count

end Dimacs

end Clausal

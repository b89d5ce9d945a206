import Mathlib.Data.List.Forall2
import Clausal.Benchmark.Run
import Clausal.Proofs.Benchmark.Record
import Clausal.Proofs.Dimacs.File
import Clausal.Proofs.FileTree.Glob
import Clausal.Proofs.Solver

/-!
Runs, record by record. Each path gets a record of its own, and but for the time it depends on
nothing else than the options and what the path leads to: neither on the records before it nor on
other files. A run is only given up for a path that no file can have, for a compressed stream
without a meaning, for options that the solver refuses, or for want of room for the trail of a
search.
-/
namespace Clausal.Benchmark

variable {files others : FileTree} {options : Options} {config : Config} {clock later : Clock}
  {path : Text} {paths : List Text} {r q : Record} {records : List Record} {log : List LogLine}

/-- The record of a path, whatever time was measured. -/
inductive IsRecord (files : FileTree) (config : Config) (path : Text) : Record → Prop
  | failed (e : LoadError) (unread : Dimacs.load files path = .error e) :
      IsRecord files config path (failedRecord path e)
  | solved (f : Formula) (s : Solution) (seconds : Float) (loaded : Dimacs.load files path = .ok f)
      (answer : f.solve config = .ok s) : IsRecord files config path (solvedRecord path s seconds)

/-- If the path leads to a formula, there is room for a search for its models. -/
def HasRoom (files : FileTree) (path : Text) : Prop :=
  ∀ f, Dimacs.load files path = .ok f → f.IsSearchable

theorem hasRoom_of_error {e : LoadError} (unread : Dimacs.load files path = .error e) :
    HasRoom files path := by
  intro f loaded
  cases unread.symm.trans loaded

theorem hasRoom_of_formula {f : Formula} (loaded : Dimacs.load files path = .ok f)
    (searchable : f.IsSearchable) : HasRoom files path := by
  intro g same
  cases loaded.symm.trans same
  exact searchable

/-- What the record says is true of what the path leads to: an error exactly if it cannot be loaded,
and otherwise whether the formula has a model. -/
structure IsTrue (files : FileTree) (path : Text) (r : Record) : Prop where
  path_eq : r.path = path
  error_iff : r.error ≠ none ↔ ∃ e, Dimacs.load files path = .error e
  verdict_iff : r.verdict = none ↔ ∃ e, Dimacs.load files path = .error e
  satisfiable_iff : r.verdict = some (Text.ofString "SATISFIABLE") ↔
    ∃ f, Dimacs.load files path = .ok f ∧ ∃ ν, f.holds ν = true
  unsatisfiable_iff : r.verdict = some (Text.ofString "UNSATISFIABLE") ↔
    ∃ f, Dimacs.load files path = .ok f ∧ ∀ ν, f.holds ν = false
  mismatch_iff : r.isMismatch = true ↔ ∃ f, Dimacs.load files path = .ok f ∧
    (Text.ofString "uf" <+: lowered (baseName path) ∧ (∀ ν, f.holds ν = false) ∨
      Text.ofString "uuf" <+: lowered (baseName path) ∧ ∃ ν, f.holds ν = true)

/-- The step of a run: its record is the one of the path. -/
theorem isRecord_of_runFile (valid : options.toConfig = .ok config)
    (h : runFile files options clock path = .ok (r, log, later)) :
    IsRecord files config path r := by
  rw [runFile, loadFile] at h
  dsimp only at h
  cases loaded : Dimacs.load files path with
  | error e =>
      rw [loaded] at h
      dsimp only at h
      by_cases reported : e.isReported = true
      · rw [if_pos reported] at h
        cases h
        exact .failed e loaded
      · rw [if_neg reported] at h
        cases h
  | ok f =>
      rw [loaded, valid] at h
      dsimp only at h
      cases answer : f.solve config with
      | error e =>
          rw [Job.solve, answer] at h
          cases h
      | ok s =>
          rw [Job.solve, answer] at h
          cases h
          exact .solved f s _ loaded answer

theorem exists_runFile (valid : options.toConfig = .ok config)
    (proper : FileTree.impropriety? path = none) (intact : Dimacs.IsIntact files path)
    (room : HasRoom files path) (clock : Clock) :
    ∃ r log later, runFile files options clock path = .ok (r, log, later) := by
  rw [runFile, loadFile]
  dsimp only
  cases loaded : Dimacs.load files path with
  | error e =>
      have reported : e.isReported = true :=
        Dimacs.isReported_of_load intact (fun _ => FileTree.isImproper_of_resolve proper) loaded
      dsimp only
      rw [if_pos reported]
      exact ⟨_, _, _, rfl⟩
  | ok f =>
      obtain ⟨s, answer, _⟩ :=
        Formula.exists_solve (room f loaded) config.heuristic config.pureLiterals
      rw [valid]
      dsimp only
      rw [Job.solve, answer config.verify]
      exact ⟨_, _, _, rfl⟩

/-- The run: the records are those of the paths, in their order. -/
theorem forall₂_of_run (valid : options.toConfig = .ok config)
    (h : run files options clock paths = .ok (records, log)) :
    List.Forall₂ (IsRecord files config) paths records := by
  induction paths generalizing clock records log with
  | nil =>
      cases h
      exact .nil
  | cons path paths ih =>
      rw [run] at h
      split at h
      · cases h
      · rename_i r _ later first
        split at h
        · cases h
        · rename_i others _ rest
          cases h
          exact .cons (isRecord_of_runFile valid first) (ih rest)

theorem exists_run (valid : options.toConfig = .ok config)
    (proper : ∀ path ∈ paths, FileTree.impropriety? path = none)
    (intact : ∀ path ∈ paths, Dimacs.IsIntact files path)
    (room : ∀ path ∈ paths, HasRoom files path) (clock : Clock) :
    ∃ records log, run files options clock paths = .ok (records, log) := by
  induction paths generalizing clock with
  | nil => exact ⟨[], [], rfl⟩
  | cons path paths ih =>
      obtain ⟨firstProper, laterProper⟩ := List.forall_mem_cons.1 proper
      obtain ⟨firstIntact, laterIntact⟩ := List.forall_mem_cons.1 intact
      obtain ⟨firstRoom, laterRoom⟩ := List.forall_mem_cons.1 room
      obtain ⟨r, log, later, first⟩ := exists_runFile valid firstProper firstIntact firstRoom clock
      obtain ⟨records, logs, rest⟩ := ih laterProper laterIntact laterRoom later
      refine ⟨r :: records, log ++ logs, ?_⟩
      rw [run, first]
      dsimp only
      rw [rest]

theorem IsRecord.hasRoom (h : IsRecord files config path r) : HasRoom files path := by
  cases h with
  | failed e unread => exact hasRoom_of_error unread
  | solved f s _ loaded answer =>
      exact hasRoom_of_formula loaded (Formula.isSearchable_of_solve answer)

/-- There is a record of every path only if there was room for every search. -/
theorem hasRoom_of_run (valid : options.toConfig = .ok config)
    (h : run files options clock paths = .ok (records, log)) :
    ∀ path ∈ paths, HasRoom files path := by
  have each := forall₂_of_run valid h
  clear h
  induction each with
  | nil => exact List.forall_mem_nil _
  | cons first _ ih => exact List.forall_mem_cons.2 ⟨first.hasRoom, ih⟩

/-- Paths that lead to the same thing get the same record, whatever run they are part of. -/
theorem IsRecord.unique (first : IsRecord files config path r)
    (second : IsRecord others config path q)
    (same : files.resolve path = others.resolve path) : q = { r with seconds := q.seconds } := by
  have loads := Dimacs.load_congr same
  cases first with
  | failed e unread =>
      cases second with
      | failed _ unread' =>
          rw [← loads, unread] at unread'
          cases unread'
          rfl
      | solved _ _ _ loaded _ =>
          rw [← loads, unread] at loaded
          cases loaded
  | solved f s seconds loaded answer =>
      cases second with
      | failed _ unread =>
          rw [← loads, loaded] at unread
          cases unread
      | solved _ _ seconds' loaded' answer' =>
          rw [← loads, loaded] at loaded'
          cases loaded'
          cases answer.symm.trans answer'
          rfl

theorem isMismatch_failedRecord (path : Text) (e : LoadError) :
    (failedRecord path e).isMismatch = false := by
  rw [failedRecord, Record.isMismatch]
  split
  · rename_i none_
    cases none_
  · rfl

theorem isMismatch_solvedRecord (path : Text) (s : Solution) (seconds : Float) :
    (solvedRecord path s seconds).isMismatch = true ↔
      expectedVerdict path = some .satisfiable ∧ s.verdict = .unsatisfiable ∨
        expectedVerdict path = some .unsatisfiable ∧ s.verdict = .satisfiable := by
  have names : Text.ofString "SATISFIABLE" ≠ Text.ofString "UNSATISFIABLE" := by decide
  rw [solvedRecord, Record.isMismatch]
  cases expectedVerdict path with
  | none => simp
  | some v => cases v <;> cases s.verdict <;> simp [Verdict.name, names, names.symm]

theorem IsRecord.isTrue (h : IsRecord files config path r) : IsTrue files path r := by
  have names : Text.ofString "SATISFIABLE" ≠ Text.ofString "UNSATISFIABLE" := by decide
  cases h with
  | failed e unread =>
      have lost {f : Formula} : Dimacs.load files path ≠ .ok f := by
        rw [unread]
        nofun
      exact {
        path_eq := rfl
        error_iff := iff_of_true nofun ⟨e, unread⟩
        verdict_iff := iff_of_true rfl ⟨e, unread⟩
        satisfiable_iff := iff_of_false nofun fun ⟨_, loaded, _⟩ => lost loaded
        unsatisfiable_iff := iff_of_false nofun fun ⟨_, loaded, _⟩ => lost loaded
        mismatch_iff := by
          rw [isMismatch_failedRecord]
          exact iff_of_false nofun fun ⟨_, loaded, _⟩ => lost loaded }
  | solved f s seconds loaded answer =>
      have only {p : Formula → Prop} : (∃ g, Dimacs.load files path = .ok g ∧ p g) ↔ p f := by
        rw [loaded]
        simp
      have kept : ¬∃ e, Dimacs.load files path = .error e := by
        rw [loaded]
        simp
      obtain ⟨sat, unsat⟩ := Formula.verdict_of_solve answer
      exact {
        path_eq := rfl
        error_iff := iff_of_false (not_not_intro rfl) kept
        verdict_iff := iff_of_false nofun kept
        satisfiable_iff := by
          rw [only, ← sat]
          cases verdict : s.verdict <;> simp [solvedRecord, verdict, Verdict.name, names.symm]
        unsatisfiable_iff := by
          rw [only, ← unsat]
          cases verdict : s.verdict <;> simp [solvedRecord, verdict, Verdict.name, names]
        mismatch_iff := by
          rw [only, ← sat, ← unsat, isMismatch_solvedRecord, expectedVerdict_eq_satisfiable,
            expectedVerdict_eq_unsatisfiable] }

theorem IsTrue.judged (h : IsTrue files path r) (fine : r.error = none) :
    r.verdict = some (Text.ofString Verdict.satisfiable.name) ∨
      r.verdict = some (Text.ofString Verdict.unsatisfiable.name) := by
  cases loaded : Dimacs.load files path with
  | error e => exact absurd fine (h.error_iff.2 ⟨e, loaded⟩)
  | ok f =>
      by_cases model : ∃ ν, f.holds ν = true
      · exact .inl (h.satisfiable_iff.2 ⟨f, loaded, model⟩)
      · refine .inr (h.unsatisfiable_iff.2 ⟨f, loaded, fun ν => ?_⟩)
        exact Bool.eq_false_iff.2 fun holds => model ⟨ν, holds⟩

/-- What the records of a run come to: they are true of their files, one for each path, a summary
counts each of them once, and no other run gives different records, but for the times, to paths that
lead to the same thing. -/
structure IsFaithful (files : FileTree) (options : Options) (paths : List Text)
    (records : List Record) : Prop where
  records_true : List.Forall₂ (IsTrue files) paths records
  summed : (Summary.ofRecords records).files =
    (Summary.ofRecords records).sat + (Summary.ofRecords records).unsat +
      (Summary.ofRecords records).errors
  independent : ∀ others clock paths' records' log,
    run others options clock paths' = .ok (records', log) →
      ∀ path r q, files.resolve path = others.resolve path → (path, r) ∈ paths.zip records →
        (path, q) ∈ paths'.zip records' → q = { r with seconds := q.seconds }

theorem isFaithful_of_run (valid : options.toConfig = .ok config)
    (h : run files options clock paths = .ok (records, log)) :
    IsFaithful files options paths records := by
  have each := forall₂_of_run valid h
  have told : List.Forall₂ (IsTrue files) paths records := each.imp fun _ _ => IsRecord.isTrue
  refine ⟨told, files_eq ?_, ?_⟩
  · clear h each
    induction told with
    | nil => exact List.forall_mem_nil _
    | cons first _ ih => exact List.forall_mem_cons.2 ⟨first.judged, ih⟩
  · intro others clock paths' records' log h' path r q same hr hq
    exact (List.forall₂_zip each hr).unique (List.forall₂_zip (forall₂_of_run valid h') hq) same

theorem mem_of_mem_sample {size : Option Int} (h : path ∈ sample size paths) : path ∈ paths := by
  cases size with
  | none => exact h
  | some k =>
      rw [sample] at h
      split at h
      · exact h
      · split at h <;> exact List.mem_of_mem_take h

/-- What is collected can be run. -/
theorem proper_of_collectFiles {directory pattern : Text} {size : Option Int}
    (sound : files.IsSound) (h : collectFiles files directory pattern size = .ok paths) :
    ∀ path ∈ paths, FileTree.impropriety? path = none := by
  rw [collectFiles] at h
  split at h
  · cases h
  · rename_i found globbed
    cases h
    intro path hpath
    have mem : path ∈ found := List.mem_mergeSort.1 (mem_of_mem_sample hpath)
    exact FileTree.impropriety?_eq_none.2 (FileTree.isProper_of_glob sound globbed mem)

end Clausal.Benchmark

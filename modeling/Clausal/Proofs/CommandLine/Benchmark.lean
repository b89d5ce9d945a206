import Clausal.CommandLine.Benchmark
import Clausal.Proofs.Benchmark.Run

/-!
Benchmarks from the command line. The exit status says whether anything was found and nothing is
wrong with any record, and the records are those of a run over the paths that were collected.
-/
namespace Clausal.CommandLine.Benchmark

open Clausal.Benchmark

variable {files : FileTree} {options : Options} {config : Config} {arguments : List Text}
  {a : Arguments} {start : Text} {paths : List Text} {records : List Record} {log : List LogLine}

theorem proper_of_selectFiles (sound : files.IsSound)
    (h : selectFiles files a start = .ok paths) :
    ∀ path ∈ paths, FileTree.impropriety? path = none := by
  rw [selectFiles] at h
  split at h
  · cases h
  · rename_i found collected
    split at h
    · cases h
    · cases h
      exact fun path hpath => proper_of_collectFiles sound collected path (mem_of_mem_sample hpath)

theorem exit_conclude (a : Arguments) (records : List Record) (log : List LogLine) :
    (conclude a records log).exit = 0 ↔ ∀ r ∈ records, r.error = none ∧ r.isMismatch = false := by
  rw [← isClean_iff, conclude]
  cases (Summary.ofRecords records).isClean <;> simp

/-- The command runs the paths it has collected, if there are any. -/
theorem run_of_selected {clock : Clock} {matching : Text}
    (given : parse commandLine arguments = .given a) (matched : pattern a = .ok matching)
    (selected : selectFiles files a matching = .ok paths)
    (ended : Clausal.Benchmark.run files (solverOptions a) clock paths = .ok (records, log)) :
    ∃ out, run files clock arguments = .ok out ∧
      (out.exit = 0 ↔ paths ≠ [] ∧ ∀ r ∈ records, r.error = none ∧ r.isMismatch = false) := by
  rw [run, Syntax.dispatch, given]
  dsimp only
  rw [runDirectory, matched]
  dsimp only
  rw [selected]
  cases paths with
  | nil => exact ⟨withoutFiles a matching, rfl, iff_of_false nofun fun some_ => some_.1 rfl⟩
  | cons path paths =>
      dsimp only
      rw [ended]
      refine ⟨conclude a records log, rfl, ?_⟩
      rw [exit_conclude, and_iff_right (List.cons_ne_nil path paths)]

/-- While compressed files are intact, a run over possible paths of files is given up exactly if
there is no room for one of its searches, and otherwise its records are faithful to the files. From
the command line, what is collected are possible paths, and, given room, the status is 0 exactly if
something was collected and no record has an error or is a mismatch. -/
theorem benchmark_spec (files : FileTree) {options : Options} {config : Config}
    (valid : options.toConfig = .ok config) :
    (∀ clock paths, (∀ path ∈ paths, FileTree.impropriety? path = none) →
      (∀ path ∈ paths, Dimacs.IsIntact files path) →
        ((∃ records log, Clausal.Benchmark.run files options clock paths = .ok (records, log)) ↔
          ∀ path ∈ paths, HasRoom files path) ∧
        ∀ records log, Clausal.Benchmark.run files options clock paths = .ok (records, log) →
          IsFaithful files options paths records) ∧
    ∀ clock arguments a matching paths, parse commandLine arguments = .given a →
      solverOptions a = options → pattern a = .ok matching →
      selectFiles files a matching = .ok paths → files.IsSound →
      (∀ path ∈ paths, Dimacs.IsIntact files path) → (∀ path ∈ paths, HasRoom files path) →
        ∃ records log out, run files clock arguments = .ok out ∧
          Clausal.Benchmark.run files options clock paths = .ok (records, log) ∧
          (out.exit = 0 ↔ paths ≠ [] ∧ ∀ r ∈ records, r.error = none ∧ r.isMismatch = false) := by
  constructor
  · intro clock paths proper intact
    refine ⟨⟨?_, fun room => exists_run valid proper intact room clock⟩, ?_⟩
    · rintro ⟨records, log, ended⟩
      exact hasRoom_of_run valid ended
    · intro records log ended
      exact isFaithful_of_run valid ended
  · intro clock arguments a matching paths given same matched selected sound intact room
    subst same
    have proper := proper_of_selectFiles sound selected
    obtain ⟨records, log, ended⟩ := exists_run valid proper intact room clock
    obtain ⟨out, left, status⟩ := run_of_selected given matched selected ended
    exact ⟨records, log, out, left, ended, status⟩

theorem benchmark_spec_misnamed :
    let content := "p cnf 1 1\n1 0\n".toList.map fun c => UInt8.ofNat c.toNat
    let files := FileTree.create {} "uuf.cnf" (.file content false)
    (∃ records log, Clausal.Benchmark.run files {} [] ["uuf.cnf", "none.cnf"] = .ok (records, log) ∧
      IsFaithful files {} ["uuf.cnf", "none.cnf"] records) ∧
    ∃ out, run files [] ["--pattern=uuf.cnf", "--", "."] = .ok out := by
  intro content files
  have valid : Options.toConfig {} = .ok {} := rfl
  constructor
  · obtain ⟨f, loaded, count⟩ : ∃ f, Dimacs.load files "uuf.cnf" = .ok f ∧ f.numVariables = 1 :=
      ⟨_, rfl, rfl⟩
    obtain ⟨e, unread⟩ : ∃ e, Dimacs.load files "none.cnf" = .error e := ⟨_, rfl⟩
    have room : ∀ path ∈ [Text.ofString "uuf.cnf", "none.cnf"], HasRoom files path :=
      List.forall_mem_cons.2 ⟨hasRoom_of_formula loaded (.inr (by rw [count]; decide)),
        List.forall_mem_singleton.2 (hasRoom_of_error unread)⟩
    obtain ⟨complete, faithful⟩ := (benchmark_spec files valid).1 [] ["uuf.cnf", "none.cnf"]
      (List.forall_mem_cons.2 ⟨rfl, List.forall_mem_singleton.2 rfl⟩)
      (List.forall_mem_cons.2 ⟨Dimacs.isIntact_of_name rfl,
        List.forall_mem_singleton.2 (Dimacs.isIntact_of_name rfl)⟩)
    obtain ⟨records, log, ended⟩ := complete.2 room
    exact ⟨records, log, ended, faithful records log ended⟩
  · have given : parse commandLine ["--pattern=uuf.cnf", "--", "."] =
        .given ⟨".", [], [("--pattern", .given "uuf.cnf")]⟩ := rfl
    have joined : FileTree.joinPath "." "uuf.cnf" = Text.ofString "./uuf.cnf" := rfl
    have literal : Text.isPattern "./uuf.cnf" = false := rfl
    have there : files.pathExists "./uuf.cnf" = true := rfl
    have globbed : files.glob "./uuf.cnf" false = .ok ["./uuf.cnf"] := by
      rw [FileTree.glob, literal]
      dsimp only
      rw [there]
      rfl
    have collected : collectFiles files "." "uuf.cnf" none = .ok ["./uuf.cnf"] := by
      rw [collectFiles, joined, globbed]
      dsimp only
      rw [List.mergeSort_singleton]
      rfl
    have selected : selectFiles files ⟨".", [], [("--pattern", .given "uuf.cnf")]⟩ "uuf.cnf" =
        .ok ["./uuf.cnf"] := by
      rw [selectFiles, collected]
      rfl
    have sound : files.IsSound := by
      rw [FileTree.IsSound]
      decide
    obtain ⟨f, loaded, count⟩ : ∃ f, Dimacs.load files "./uuf.cnf" = .ok f ∧ f.numVariables = 1 :=
      ⟨_, rfl, rfl⟩
    obtain ⟨_, _, out, left, _⟩ := (benchmark_spec files valid).2 [] _ _ _ _ given rfl rfl selected
      sound (List.forall_mem_singleton.2 (Dimacs.isIntact_of_name rfl))
      (List.forall_mem_singleton.2 (hasRoom_of_formula loaded (.inr (by rw [count]; decide))))
    exact ⟨out, left⟩

/-- A lone surrogate stands for no byte, so it is the path of no file; it ends a run although it is
no NUL either, and the file behind it gets no record. A file with two contradictory clauses gets
none if the table for its variables cannot be counted. -/
theorem benchmark_aborted :
    let bytes (text : String) := text.toList.map fun c => UInt8.ofNat c.toNat
    let big := FileNode.file (bytes "p cnf 9223372036854775807 2\n1 0\n-1 0\n") false
    let files := (FileTree.create {} "one.cnf" (.file [] false)).create "big.cnf" big
    let paths : List Text := [[.surrogate 0], "one.cnf"]
    (∀ path ∈ Text.ofString "big.cnf" :: paths, .char '\x00' ∉ path ∧ Dimacs.IsIntact files path) ∧
      (¬∃ records log, Clausal.Benchmark.run files {} [] paths = .ok (records, log)) ∧
      (∃ f, Dimacs.load files "big.cnf" = .ok f ∧ ∀ ν, f.holds ν = false) ∧
      ¬∃ records log, Clausal.Benchmark.run files {} [] ["big.cnf"] = .ok (records, log) := by
  intro bytes big files paths
  obtain ⟨f, loaded, count, clauses⟩ : ∃ f, Dimacs.load files "big.cnf" = .ok f ∧
      f.numVariables = 0x7FFFFFFFFFFFFFFF ∧ f.clauses = [[1], [-1]] := ⟨_, rfl, rfl, rfl⟩
  refine ⟨?_, ?_, ⟨f, loaded, ?_⟩, ?_⟩
  · exact List.forall_mem_cons.2 ⟨⟨by decide, Dimacs.isIntact_of_name rfl⟩,
      List.forall_mem_cons.2 ⟨⟨by decide, Dimacs.isIntact_of_name rfl⟩,
        List.forall_mem_singleton.2 ⟨by decide, Dimacs.isIntact_of_name rfl⟩⟩⟩
  · rintro ⟨records, log, ended⟩
    cases ended
  · exact Formula.not_holds_of_units (l := 1) (by simp [clauses]) (by simp [clauses])
  · rintro ⟨records, log, ended⟩
    have room := hasRoom_of_run (rfl : Options.toConfig {} = .ok {}) ended "big.cnf"
      List.mem_cons_self f loaded
    rw [Formula.IsSearchable, Formula.hasEmptyClause, clauses, count] at room
    revert room
    decide

end Clausal.CommandLine.Benchmark

import Clausal.CommandLine.Solve
import Clausal.Proofs.CommandLine.Arguments
import Clausal.Proofs.Dimacs.Answer
import Clausal.Proofs.Dimacs.File
import Clausal.Proofs.Solver

/-!
Solving one file from the command line. Whatever the file holds and whichever options are given, the
exit status and the output tell the truth about the formula in the file: a model that can be read
off the value lines, or that there is none. There is no status and no output if the search finds no
room for its trail, or if a heuristic is set to nothing.
-/
namespace Clausal.CommandLine.Solve

/-- The outcome tells the truth about the formula. -/
inductive Answers (f : Formula) (out : Outcome) : Prop
  | satisfiable (ν : Nat → Bool) (model : f.holds ν = true) (status : out.exit = 10)
      (verdict : Text.ofString "s SATISFIABLE" ++ [.char '\n'] <+: out.stdout)
      (values : Dimacs.valueWords (Text.lines out.stdout) =
        ((List.range' 1 f.numVariables).map fun v => Dimacs.integerWord (Literal.ofVar v (ν v))) ++
          [Dimacs.integerWord 0])
  | unsatisfiable (refuted : ∀ ν, f.holds ν = false) (status : out.exit = 20)
      (verdict : Text.ofString "s UNSATISFIABLE" ++ [.char '\n'] <+: out.stdout)
      (values : ∀ line ∈ Text.lines out.stdout, Dimacs.startsWith 'v' line = false)

variable {files : FileTree} {arguments : List Text} {a : Arguments} {f : Formula} {s : Solution}

theorem exists_counterLine {stats : Stats} {line : Text} (h : line ∈ counterLines stats) :
    ∃ name ∈ stats.fields.map Prod.fst, ∃ n : Nat, line =
      Text.ofString "c " ++ Text.ofString name ++ Text.ofString ": " ++ Text.ofString n.repr := by
  obtain ⟨⟨name, n⟩, field, rfl⟩ := List.mem_map.1 h
  refine ⟨name, List.mem_map_of_mem field, n, ?_⟩
  rw [← Text.ofString_append, ← Text.ofString_append, ← Text.ofString_append]
  rfl

theorem startsWith_counterLine {stats : Stats} {line : Text} (h : line ∈ counterLines stats) :
    Dimacs.startsWith 'v' line = false := by
  obtain ⟨name, _, n, rfl⟩ := exists_counterLine h
  rfl

theorem isLineEnd_of_mem_counterLine {stats : Stats} {line : Text} {c : CodePoint}
    (h : line ∈ counterLines stats) (hc : c ∈ line) : Text.isLineEnd c = false := by
  have fixed : ∀ part ∈ ["c ", ": ", "decisions", "propagations", "pure_literals", "conflicts",
      "backtracks", "max_depth"], ∀ c ∈ Text.ofString part, Text.isLineEnd c = false := by decide
  obtain ⟨name, named, n, rfl⟩ := exists_counterLine h
  simp only [List.mem_append] at hc
  rcases hc with ((start | naming) | colon) | digits
  · exact fixed "c " (by simp) c start
  · exact fixed name (List.mem_cons_of_mem _ (List.mem_cons_of_mem _ named)) c naming
  · exact fixed ": " (by simp) c colon
  · rw [Text.ofString_repr] at digits
    obtain ⟨d, hd, rfl⟩ := List.mem_map.1 digits
    exact Text.isLineEnd_of_isBlank (Text.isBlank_of_isDigit (Text.isDigit_of_mem hd))

/-- The lines that are printed, without their ends. -/
def reportLines (s : Solution) (withStats : Bool) : List Text :=
  Dimacs.answerLines s (some 10) ++ if withStats then counterLines s.stats else []

theorem report_of_isSayable (sayable : s.isSayable = true) (withStats : Bool) :
    report s withStats = .ok (unlines (reportLines s withStats)) := by
  have answer : unlines (Dimacs.answerLines s (some 10)) =
      Dimacs.renderAnswer s (some 10) ++ [.char '\n'] :=
    (Dimacs.renderAnswer_newline s (some 10)).symm
  rw [unlines] at answer
  rw [report, Dimacs.writeAnswer, if_pos sayable, unlines, reportLines, List.flatMap_append, answer]
  rfl

theorem lines_reportLines (s : Solution) (withStats : Bool) :
    Text.lines (unlines (reportLines s withStats)) = reportLines s withStats := by
  refine Dimacs.lines_of_rows fun line hline c hc => ?_
  rcases List.mem_append.1 hline with answer | counter
  · exact Dimacs.isLineEnd_of_mem_answerLines answer hc
  · split at counter
    · exact isLineEnd_of_mem_counterLine counter hc
    · cases counter

theorem prefix_reportLines {line : Text} {rest : List Text} (withStats : Bool)
    (h : Dimacs.answerLines s (some 10) = line :: rest) :
    line ++ [.char '\n'] <+: unlines (reportLines s withStats) := by
  rw [unlines, reportLines, h, List.cons_append, List.flatMap_cons]
  exact List.prefix_append _ _

/-- The solver's answer, as it is printed, tells the truth about the formula. -/
theorem answers_of_solve {config : Config} (h : f.solve config = .ok s) (withStats : Bool)
    (stderr : Text) : Answers f ⟨exitStatus s, unlines (reportLines s withStats), stderr⟩ := by
  have counters : ∀ line ∈ if withStats then counterLines s.stats else [],
      Dimacs.startsWith 'v' line = false := by
    intro line hline
    split at hline
    · exact startsWith_counterLine hline
    · cases hline
  obtain ⟨stats, ⟨refuted, none_⟩ | ⟨t, found, _, satisfied⟩⟩ :=
    Formula.solve_spec (Formula.isSearchable_of_solve h) config
  · cases h.symm.trans refuted
    refine .unsatisfiable none_ rfl (prefix_reportLines withStats rfl) ?_
    rw [lines_reportLines]
    exact List.forall_mem_cons.2 ⟨rfl, counters⟩
  · cases h.symm.trans found
    have model := Formula.holds_of_satisfiedBy satisfied
    refine .satisfiable _ model rfl (prefix_reportLines withStats rfl) ?_
    have room (count : Nat) : 0 < Dimacs.lineWidth (some 10) count := Nat.succ_pos 9
    rw [lines_reportLines, ← Formula.vars, ← Dimacs.modelWords_completion f t stats]
    exact Dimacs.valueWords_of_valueLines [Text.ofString "s SATISFIABLE"] _ (room _)
      (List.forall_mem_cons.2 ⟨rfl, counters⟩)

theorem run_of_given (given : parse commandLine arguments = .given a) :
    run files arguments = solveFile files a := by
  rw [run, Syntax.dispatch, given]

theorem solveFile_of_error {e : LoadError} (unread : Dimacs.load files a.operand = .error e)
    (reported : e.isReported = true) :
    ∃ out, solveFile files a = .ok out ∧ out.exit = 1 ∧ out.stdout = [] := by
  rw [solveFile, unread]
  dsimp only
  rw [if_pos reported]
  exact ⟨_, rfl, rfl, rfl⟩

theorem solveFile_of_formula {config : Config} (loaded : Dimacs.load files a.operand = .ok f)
    (accepted : (solverOptions a).toConfig = .ok config) (searchable : f.IsSearchable) :
    ∃ out, solveFile files a = .ok out ∧ Answers f out := by
  obtain ⟨s, solved, _⟩ := Formula.exists_solve searchable config.heuristic config.pureLiterals
  rw [solveFile, loaded]
  dsimp only
  rw [solveFormula, accepted]
  dsimp only
  rw [solved config.verify]
  dsimp only
  rw [report_of_isSayable (Formula.isSayable_of_solve (solved config.verify))]
  exact ⟨_, rfl, answers_of_solve (solved config.verify) _ _⟩

theorem solveFile_of_fault {config : Config} {e : Fault}
    (loaded : Dimacs.load files a.operand = .ok f)
    (accepted : (solverOptions a).toConfig = .ok config) (failed : f.solve config = .error e) :
    solveFile files a = .error (.fault e) := by
  rw [solveFile, loaded]
  dsimp only
  rw [solveFormula, accepted]
  dsimp only
  rw [failed]

theorem solveFile_of_refusal {e : OptionError} (loaded : Dimacs.load files a.operand = .ok f)
    (refused : (solverOptions a).toConfig = .error e) :
    solveFile files a = .error (.option e) := by
  rw [solveFile, loaded]
  dsimp only
  rw [solveFormula, refused]

/-- For every file and every accepted command line: a file that cannot be loaded leads to status 1
and no output, and the outcome for any other one tells the truth about its formula, given that there
is room for a search and that a heuristic is one of the choices, as its option says. Without room
there is no outcome. One value passes for a choice without being one: a heuristic that is set to
nothing. The solver refuses it, before it looks for room. -/
theorem run_spec {content : List UInt8} {compressed : Bool}
    (given : parse commandLine arguments = .given a)
    (file : files.resolve a.operand = .ok (.file content compressed))
    (intact : Dimacs.IsIntact files a.operand) :
    (∃ e out, Dimacs.load files a.operand = .error e ∧ run files arguments = .ok out ∧
      out.exit = 1 ∧ out.stdout = []) ∨
    ∃ f, Dimacs.load files a.operand = .ok f ∧
      (a.value? heuristicOption.long ≠ some .nothing →
        (f.IsSearchable → ∃ out, run files arguments = .ok out ∧ Answers f out) ∧
        (¬f.IsSearchable → ∃ e, run files arguments = .error (.fault (.start e)))) ∧
      (a.value? heuristicOption.long = some .nothing →
        ∃ e, run files arguments = .error (.option e)) := by
  have configured := toConfig_of_parse rfl given
  rw [run_of_given given]
  cases loaded : Dimacs.load files a.operand with
  | error e =>
      have reported : e.isReported = true :=
        Dimacs.isReported_of_load intact (fun e missing => by cases file.symm.trans missing) loaded
      obtain ⟨out, ended, status, silent⟩ := solveFile_of_error loaded reported
      exact .inl ⟨e, out, rfl, ended, status, silent⟩
  | ok f =>
      refine .inr ⟨f, rfl, fun chosen => ?_, fun nothing => ?_⟩
      · obtain ⟨config, accepted⟩ := configured.2 chosen
        refine ⟨solveFile_of_formula loaded accepted, fun crowded => ?_⟩
        obtain ⟨e, _, refused⟩ := Formula.solve_of_not_isSearchable crowded
        exact ⟨e, solveFile_of_fault loaded accepted (refused config)⟩
      · cases refused : (solverOptions a).toConfig with
        | ok config => exact absurd nothing (configured.1 ⟨config, refused⟩)
        | error e => exact ⟨e, solveFile_of_refusal loaded refused⟩

theorem run_spec_polarity :
    let content := "p cnf 2 2\n1 0\n-1 -2 0\n".toList.map fun c => UInt8.ofNat c.toNat
    let files := FileTree.create {} "two.cnf" (.file content false)
    let arguments : List Text := ["--stats", "--heur=polarity", "--", "two.cnf"]
    ∃ f out, Dimacs.load files "two.cnf" = .ok f ∧ run files arguments = .ok out ∧
      Answers f out := by
  intro content files arguments
  have given : parse commandLine arguments =
      .given ⟨"two.cnf", ["--stats"], [("--heuristic", .given "polarity")]⟩ := rfl
  have file : files.resolve "two.cnf" = .ok (.file content false) := rfl
  have intact : Dimacs.IsIntact files "two.cnf" := Dimacs.isIntact_of_name rfl
  obtain ⟨g, loaded, count⟩ : ∃ g, Dimacs.load files "two.cnf" = .ok g ∧ g.numVariables = 2 :=
    ⟨_, rfl, rfl⟩
  cases run_spec given file intact with
  | inl unread =>
      obtain ⟨e, _, unread, _⟩ := unread
      cases loaded.symm.trans unread
  | inr read =>
      obtain ⟨f, same, answered, _⟩ := read
      cases loaded.symm.trans same
      have searchable : g.IsSearchable := .inr (by rw [count]; decide)
      obtain ⟨out, ended, answers⟩ := (answered nofun).1 searchable
      exact ⟨g, out, loaded, ended, answers⟩

/-- Two command lines that are accepted for a file that is a formula, and yet there is no status:
the table for so many variables cannot be counted, and a heuristic that is set to nothing is no
heuristic. -/
theorem run_unanswered :
    let bytes (text : String) := text.toList.map fun c => UInt8.ofNat c.toNat
    let big := FileNode.file (bytes "p cnf 9223372036854775807 2\n1 0\n-1 0\n") false
    let unit := FileNode.file (bytes "1 0\n") false
    let files := (FileTree.create {} "big.cnf" big).create "unit.cnf" unit
    (files.resolve "big.cnf" = .ok big ∧
      parse commandLine ["big.cnf"] = .given ⟨"big.cnf", [], []⟩ ∧
      ∃ f, Dimacs.load files "big.cnf" = .ok f ∧ (∀ ν, f.holds ν = false) ∧
        run files ["big.cnf"] = .error (.fault (.start .uncountable))) ∧
    files.resolve "unit.cnf" = .ok unit ∧
      parse commandLine ["--heuristic=--", "unit.cnf"] =
        .given ⟨"unit.cnf", [], [("--heuristic", .nothing)]⟩ ∧
      ∃ f, Dimacs.load files "unit.cnf" = .ok f ∧ f.holds (fun _ => true) = true ∧
        ∃ e, run files ["--heuristic=--", "unit.cnf"] = .error (.option e) := by
  intro bytes big unit files
  have givenBig : parse commandLine ["big.cnf"] = .given ⟨"big.cnf", [], []⟩ := rfl
  have givenUnit : parse commandLine ["--heuristic=--", "unit.cnf"] =
      .given ⟨"unit.cnf", [], [("--heuristic", .nothing)]⟩ := rfl
  obtain ⟨f, loadedBig, count, clauses⟩ : ∃ f, Dimacs.load files "big.cnf" = .ok f ∧
      f.numVariables = 0x7FFFFFFFFFFFFFFF ∧ f.clauses = [[1], [-1]] := ⟨_, rfl, rfl, rfl⟩
  obtain ⟨g, loadedUnit, model⟩ : ∃ g, Dimacs.load files "unit.cnf" = .ok g ∧
      g.holds (fun _ => true) = true := ⟨_, rfl, rfl⟩
  have nonempty : f.hasEmptyClause = false := by
    rw [Formula.hasEmptyClause, clauses]
    rfl
  refine ⟨⟨rfl, givenBig, f, loadedBig, ?_, ?_⟩, rfl, givenUnit, g, loadedUnit, model, ?_⟩
  · exact Formula.not_holds_of_units (l := 1) (by simp [clauses]) (by simp [clauses])
  · rw [run_of_given givenBig]
    exact solveFile_of_fault loadedBig rfl
      (Formula.solve_of_uncountable nonempty (Nat.le_of_eq count.symm) _)
  · rw [run_of_given givenUnit]
    exact ⟨_, solveFile_of_refusal loadedUnit rfl⟩

end Clausal.CommandLine.Solve

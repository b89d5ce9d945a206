import Clausal.CommandLine.SolverOptions
import Clausal.Dimacs.Answer
import Clausal.Dimacs.File

/-!
The command that solves one file. Its exit status tells the verdict: 10 for a satisfiable formula,
20 for an unsatisfiable one and 1 for a file that cannot be read as a formula.
-/
namespace Clausal.CommandLine.Solve

def commandLine : Syntax where
  program := "solve_cnf.py"
  usage :=
    "usage: solve_cnf.py [-h]\n" ++
    "                    [--heuristic \x7border,most_literal,most_variable,polarity,min_clause_length\x7d]\n" ++
    "                    [--no_pure_literals] [--no_verify] [--stats] [--verbose]\n" ++
    "                    cnf_file\n"
  description :=
    "\nDPLL SAT solver for DIMACS CNF files.\n" ++
    "\npositional arguments:\n" ++
    "  cnf_file              DIMACS CNF file (optionally .gz)\n" ++
    "\noptions:\n" ++
    "  -h, --help            show this help message and exit\n" ++
    "  --heuristic \x7border,most_literal,most_variable,polarity,min_clause_length\x7d\n" ++
    "                        Branching heuristic\n" ++
    "  --no_pure_literals    Disable pure-literal elimination\n" ++
    "  --no_verify           Skip checking the model against the formula\n" ++
    "  --stats               Print search statistics\n" ++
    "  --verbose\n"
  operand := "cnf_file"
  options := [
    { long := "--help", short := some 'h', kind := .help },
    heuristicOption,
    noPureLiteralsOption,
    noVerifyOption,
    { long := "--stats", kind := .flag },
    { long := "--verbose", kind := .flag }]

inductive Failure where
  | load (error : LoadError)
  | option (error : OptionError)
  | fault (cause : Fault)
  | unsayable (message : String)

def Failure.message : Failure → Text
  | .load e => e.message
  | .option e => e.message
  | .fault e => e.message
  | .unsayable message => message

def exitStatus (s : Solution) : Nat :=
  match s.verdict with
  | .satisfiable => 10
  | .unsatisfiable => 20

/-- Every line is closed by a line feed. -/
def unlines (lines : List Text) : Text := lines.flatMap fun line => line ++ "\n"

/-- The counters as comments. -/
def counterLines (stats : Stats) : List Text :=
  stats.fields.map fun (name, n) => Text.ofString s!"c {name}: {n}"

/-- The answer and, if they are asked for, the counters. -/
def report (s : Solution) (withStats : Bool) : Except String Text :=
  match Dimacs.writeAnswer s (some 10) with
  | .error message => .error message
  | .ok answer => .ok (unlines (answer :: if withStats then counterLines s.stats else []))

/-- What a talkative run reports before it solves the formula. -/
def loadingLines (files : FileTree) (path : Text) : List Text :=
  (Dimacs.loadLog files path).map Text.ofString

/-- The answer to a formula that was read from a path, and what a talkative run reports. -/
def solveFormula (path : Text) (f : Formula) (a : Arguments) :
    Except Failure (Solution × List Text) :=
  match (solverOptions a).toConfig with
  | .error e => .error (.option e)
  | .ok config =>
    let outcome := f.solve config
    match outcome with
    | .error e => .error (.fault e)
    | .ok s =>
      .ok (s, ("read " ++ f.describe ++ " from " ++ path) ::
        (f.solveLog config outcome).map Text.ofString)

/-- The options are only looked at once the file has been read. -/
def solveFile (files : FileTree) (a : Arguments) : Except Failure Outcome :=
  let log (lines : List Text) : Text := if a.has "--verbose" then unlines lines else []
  let loading := log (loadingLines files a.operand)
  match Dimacs.load files a.operand with
  | .error e =>
    if e.isReported then
      .ok { exit := 1, stderr := loading ++ unlines ["error: " ++ a.operand ++ ": " ++ e.message] }
    else .error (.load e)
  | .ok f =>
    match solveFormula a.operand f a with
    | .error e => .error e
    | .ok (s, lines) =>
      match report s (a.has "--stats") with
      | .error message => .error (.unsayable message)
      | .ok stdout => .ok { exit := exitStatus s, stdout := stdout, stderr := loading ++ log lines }

def run (files : FileTree) (arguments : List Text) : Except Failure Outcome :=
  commandLine.dispatch arguments (solveFile files)

end Clausal.CommandLine.Solve

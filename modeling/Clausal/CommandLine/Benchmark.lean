import Clausal.Benchmark.Run
import Clausal.CommandLine.SolverOptions

/-!
The command that solves and times every file of a directory. It succeeds if there are files, all of
them can be read, and no verdict disagrees with a file's name.
-/
namespace Clausal.CommandLine.Benchmark

open Clausal.Benchmark

def commandLine : Syntax where
  program := "benchmark.py"
  usage :=
    "usage: benchmark.py [-h] [--pattern PATTERN] [--sample_size SAMPLE_SIZE]\n" ++
    "                    [--heuristic \x7border,most_literal,most_variable,polarity,min_clause_length\x7d]\n" ++
    "                    [--no_pure_literals] [--no_verify] [--no_progress]\n" ++
    "                    [--verbose]\n" ++
    "                    directory\n"
  description :=
    "\nSolve and time every CNF file in a directory.\n" ++
    "\npositional arguments:\n" ++
    "  directory             Directory with CNF files\n" ++
    "\noptions:\n" ++
    "  -h, --help            show this help message and exit\n" ++
    "  --pattern PATTERN     Glob pattern for the instance files\n" ++
    "  --sample_size SAMPLE_SIZE\n" ++
    "                        The number of instances to solve\n" ++
    "  --heuristic \x7border,most_literal,most_variable,polarity,min_clause_length\x7d\n" ++
    "  --no_pure_literals\n" ++
    "  --no_verify\n" ++
    "  --no_progress\n" ++
    "  --verbose\n"
  operand := "directory"
  options := [
    { long := "--help", short := some 'h', kind := .help },
    { long := "--pattern", kind := .value .anyText },
    { long := "--sample_size", kind := .value .integer },
    heuristicOption,
    noPureLiteralsOption,
    noVerifyOption,
    { long := "--no_progress", kind := .flag },
    { long := "--verbose", kind := .flag }]

/-- A pattern or a sample size that is set to nothing cannot be used. -/
inductive Failure where
  | noPattern
  | noSampleSize
  | run (error : RunError)

def Failure.message : Failure → Text
  | .noPattern => "join() argument must be str, bytes, or os.PathLike object, not 'list'"
  | .noSampleSize => "'>' not supported between instances of 'int' and 'list'"
  | .run e => e.message

/-- Records that cannot be written are left out; a run makes none of them. -/
def report (records : List Record) : Text :=
  let rule : Text := List.replicate 60 (.char '=')
  let summary := (Summary.ofRecords records).lines.map Text.ofString
  (records.filterMap Record.line? ++ rule :: summary).flatMap fun line => line ++ "\n"

def pattern (a : Arguments) : Except Failure Text :=
  match a.value? "--pattern" with
  | none => .ok "*.cnf"
  | some (.given text) => .ok text
  | some .nothing => .error .noPattern

def sampleSize (a : Arguments) : Except Failure (Option Int) :=
  match a.value? "--sample_size" with
  | none => .ok none
  | some (.given text) => .ok (Text.paddedInteger? text)
  | some .nothing => .error .noSampleSize

/-- The sample size is only looked at once the files have been found. -/
def selectFiles (files : FileTree) (a : Arguments) (pattern : Text) :
    Except Failure (List Text) :=
  match collectFiles files a.operand pattern none with
  | .error e => .error (.run (.path e))
  | .ok paths =>
    match sampleSize a with
    | .error e => .error e
    | .ok size => .ok (sample size paths)

/-- What a command without files leaves behind. -/
def withoutFiles (a : Arguments) (pattern : Text) : Outcome where
  exit := 1
  stdout := "No files matching " ++ pattern ++ " in " ++ a.operand ++ "\n"

/-- What a command leaves behind that has run all files. -/
def conclude (a : Arguments) (records : List Record) (log : List LogLine) : Outcome where
  exit := if (Summary.ofRecords records).isClean then 0 else 1
  stdout := report records
  stderr := renderLog (a.has "--verbose") log

def runDirectory (files : FileTree) (clock : Clock) (a : Arguments) : Except Failure Outcome :=
  match pattern a with
  | .error e => .error e
  | .ok pattern =>
    match selectFiles files a pattern with
    | .error e => .error e
    | .ok [] => .ok (withoutFiles a pattern)
    | .ok paths =>
      match run files (solverOptions a) clock paths with
      | .error e => .error (.run e)
      | .ok (records, log) => .ok (conclude a records log)

def run (files : FileTree) (clock : Clock) (arguments : List Text) : Except Failure Outcome :=
  commandLine.dispatch arguments (runDirectory files clock)

end Clausal.CommandLine.Benchmark

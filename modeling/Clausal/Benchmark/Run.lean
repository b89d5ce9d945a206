import Clausal.Benchmark.Record
import Clausal.Dimacs.File
import Clausal.FileTree.Glob
import Clausal.Options

/-!
Running a benchmark: the files of a directory are collected, and each is loaded and solved on its
own. A file that cannot be loaded becomes a record with an error and the run goes on. Times come
from a clock that is read before and after each search.
-/
namespace Clausal.Benchmark

/-- What ends a whole run. -/
inductive RunError where
  | path (error : PathError)
  | load (error : LoadError)
  | option (error : OptionError)
  | fault (cause : Fault)

def RunError.message : RunError → Text
  | .path e => e.message
  | .load e => e.message
  | .option e => e.message
  | .fault e => e.message

/-- Readings in the order in which they are taken; a clock without readings left stands at 0. -/
abbrev Clock := List Float

namespace Clock

def read (clock : Clock) : Float × Clock := (clock.headD 0.0, clock.tail)

end Clock

/-- A line of the log. Only a talkative run shows those that are not warnings. -/
structure LogLine where
  isWarning : Bool
  text : Text

def detail (text : String) : LogLine := ⟨false, text⟩

def warning (text : Text) : LogLine := ⟨true, text⟩

/-- The log as it is shown, every line closed by a line feed. -/
def renderLog (verbose : Bool) (log : List LogLine) : Text :=
  (log.filter fun line => verbose || line.isWarning).flatMap fun line => line.text ++ "\n"

/-- Orders the files by name. A sample size cuts the list only if it holds more files; a negative
one counts from the end. -/
def sample (size : Option Int) (paths : List Text) : List Text :=
  match size with
  | none => paths
  | some k =>
    if (paths.length : Int) ≤ k then paths
    else if 0 ≤ k then paths.take k.toNat
    else paths.take (paths.length - (-k).toNat)

/-- The paths that match a pattern below a directory, in ascending order. -/
def collectFiles (files : FileTree) (directory pattern : Text) (size : Option Int) :
    Except PathError (List Text) :=
  match files.glob (FileTree.joinPath directory pattern) false with
  | .error e => .error e
  | .ok paths => .ok (sample size (paths.mergeSort Text.notAfter))

/-- The record of a file that could not be loaded. -/
def failedRecord (path : Text) (e : LoadError) : Record where
  path := path
  verdict := none
  seconds := 0.0
  expected := (expectedVerdict path).map fun v => v.name
  error := some (Text.ofString e.message)

def solvedRecord (path : Text) (s : Solution) (seconds : Float) : Record where
  path := path
  verdict := some (Text.ofString s.verdict.name)
  seconds := seconds
  expected := (expectedVerdict path).map fun v => v.name
  stats := some s.stats

/-- What is warned about in a record. -/
def complaints (r : Record) : List LogLine :=
  match r.error, r.isMismatch, r.expected, r.verdict with
  | some e, _, _, _ => [warning ("skipping " ++ r.path ++ ": " ++ e)]
  | none, true, some expected, some verdict =>
    [warning (r.path ++ ": expected " ++ expected ++ ", got " ++ verdict)]
  | _, _, _, _ => []

/-- A file that has been loaded and is ready to be solved, with what has been logged so far. -/
structure Job where
  path : Text
  formula : Formula
  config : Config
  log : List LogLine

inductive Loaded where
  | ready (job : Job)
  | failed (record : Record) (log : List LogLine)

def loadFile (files : FileTree) (options : Options) (path : Text) : Except RunError Loaded :=
  let log := (Dimacs.loadLog files path).map detail
  match Dimacs.load files path with
  | .error e =>
    if e.isReported then
      let record := failedRecord path e
      .ok (.failed record (log ++ complaints record))
    else .error (.load e)
  | .ok f =>
    match options.toConfig with
    | .error e => .error (.option e)
    | .ok config => .ok (.ready ⟨path, f, config, log⟩)

namespace Job

def solve (job : Job) : Except Fault Solution := job.formula.solve job.config

/-- The record of a job that took the given time, and all that is logged about its file. -/
def finish (job : Job) (outcome : Except Fault Solution) (seconds : Float) :
    Except RunError (Record × List LogLine) :=
  match outcome with
  | .error e => .error (.fault e)
  | .ok s =>
    let record := solvedRecord job.path s seconds
    let log := (job.formula.solveLog job.config outcome).map detail
    .ok (record, job.log ++ log ++ complaints record)

end Job

/-- The record of one file, what is logged about it, and the clock afterwards. -/
def runFile (files : FileTree) (options : Options) (clock : Clock) (path : Text) :
    Except RunError (Record × List LogLine × Clock) :=
  match loadFile files options path with
  | .error e => .error e
  | .ok (.failed record log) => .ok (record, log, clock)
  | .ok (.ready job) =>
    let (start, clock) := clock.read
    let outcome := job.solve
    let (stop, clock) := clock.read
    match job.finish outcome (stop - start) with
    | .error e => .error e
    | .ok (record, log) => .ok (record, log, clock)

def run (files : FileTree) (options : Options) (clock : Clock) :
    List Text → Except RunError (List Record × List LogLine)
  | [] => .ok ([], [])
  | path :: rest =>
    match runFile files options clock path with
    | .error e => .error e
    | .ok (record, log, clock) =>
      match run files options clock rest with
      | .error e => .error e
      | .ok (records, logs) => .ok (record :: records, log ++ logs)

end Clausal.Benchmark

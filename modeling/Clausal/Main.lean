import Clausal.CommandLine.Benchmark
import Clausal.CommandLine.Solve
import Clausal.Demo

/-!
The program. Its first argument chooses what it does: `solve` decides one file, `benchmark` solves
and times the files of a directory, and `demo` shows some small problems. A benchmark can only use
the files whose names it is given on standard input, one on each line.
-/
namespace Clausal

open CommandLine

/-- Adds what stands under a path, if anything does. A directory cannot be read as a file. -/
def addPath (files : FileTree) (path : String) : IO FileTree := do
  try
    let bytes ← IO.FS.readBinFile path
    return files.create path (.file bytes.toList false)
  catch
    | .inappropriateType _ _ _ => return files.create path .directory
    | _ => return files

/-- The path and the paths on the way to it. A file on the way makes a path a wrong one. -/
def addPathWithParents (files : FileTree) (path : String) : IO FileTree :=
  let names := path.toList.splitOn '/'
  let starts := (List.range' 1 names.length).map fun n =>
    String.ofList (['/'].intercalate (names.take n))
  (starts.filter fun start => !start.isEmpty).foldlM addPath files

def emit (o : Outcome) : IO UInt32 := do
  IO.print (Text.visible o.stdout)
  IO.eprint (Text.visible o.stderr)
  return o.exit.toUInt32

def emitFailure (message : Text) : IO UInt32 := emit { exit := 1, stderr := message ++ "\n" }

def solveCommand (arguments : List Text) : IO UInt32 := do
  let files ← match CommandLine.parse Solve.commandLine arguments with
    | .given a => addPathWithParents {} (Text.visible a.operand)
    | _ => pure {}
  match Solve.run files arguments with
  | .ok outcome => emit outcome
  | .error e => emitFailure e.message

def seconds : IO Float := do
  return (← IO.monoNanosNow).toFloat / 1000000000.0

open Clausal.Benchmark in
/-- Solves the files one after the other and reads the clock around each search. -/
def runTimed (files : FileTree) (options : Options) (paths : List Text) :
    IO (Except RunError (List Record × List LogLine)) := do
  let mut records := #[]
  let mut log := #[]
  for path in paths do
    match loadFile files options path with
    | .error e => return .error e
    | .ok (.failed record lines) =>
      records := records.push record
      log := log ++ lines
    | .ok (.ready job) =>
      let start ← seconds
      let outcome ← IO.lazyPure fun _ => job.solve
      let stop ← seconds
      match job.finish outcome (stop - start) with
      | .error e => return .error e
      | .ok (record, lines) =>
        records := records.push record
        log := log ++ lines
  return .ok (records.toList, log.toList)

def benchmarkDirectory (files : FileTree) (a : Arguments) (pattern : Text) : IO UInt32 := do
  match CommandLine.Benchmark.selectFiles files a pattern with
  | .error e => emitFailure e.message
  | .ok [] => emit (CommandLine.Benchmark.withoutFiles a pattern)
  | .ok paths =>
    match ← runTimed files (solverOptions a) paths with
    | .error e => emitFailure e.message
    | .ok (records, log) => emit (CommandLine.Benchmark.conclude a records log)

def benchmarkCommand (arguments : List Text) : IO UInt32 := do
  match CommandLine.parse CommandLine.Benchmark.commandLine arguments with
  | .given a =>
    match CommandLine.Benchmark.pattern a with
    | .error e => emitFailure e.message
    | .ok pattern =>
      let names := Text.lines (Text.ofString (← (← IO.getStdin).readToEnd))
      benchmarkDirectory (← (names.map Text.visible).foldlM addPath {}) a pattern
  | _ =>
    match CommandLine.Benchmark.run {} [] arguments with
    | .ok outcome => emit outcome
    | .error e => emitFailure e.message

end Clausal

open Clausal in
def main : List String → IO UInt32
  | "solve" :: arguments => solveCommand (arguments.map Text.ofString)
  | "benchmark" :: arguments => benchmarkCommand (arguments.map Text.ofString)
  | ["demo"] => emit { exit := 0, stdout := Demo.render Demo.allLines }
  | _ => emit { exit := 2, stderr := "usage: clausal (solve | benchmark | demo) [argument ...]\n" }

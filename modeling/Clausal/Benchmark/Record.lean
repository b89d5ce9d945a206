import Clausal.Benchmark.Times
import Clausal.Solver
import Clausal.Text.Fixed

/-!
Benchmark records: one for each file, with a verdict or with an error. A file's name may announce
its verdict; a record that disagrees with the name is a mismatch. Summaries count the records and
sum up the times of those without an error.
-/
namespace Clausal.Benchmark

/-- Verdicts are kept by name, so that records from elsewhere can hold any. -/
structure Record where
  path : Text
  verdict : Option Text
  seconds : Float
  expected : Option Text
  stats : Option Stats := none
  error : Option Text := none

/-- The last name of a path; empty if the path ends in a slash. -/
def baseName (path : Text) : Text := (path.reverse.takeWhile (· != .char '/')).reverse

/-- Capitals of the ASCII alphabet become small letters. -/
def lowered (text : Text) : Text :=
  text.map fun
    | .char c => .char c.toLower
    | .surrogate i => .surrogate i

/-- Names that start with `uf` announce a satisfiable formula and those with `uuf` an unsatisfiable
one, in capitals or not. -/
def expectedVerdict (path : Text) : Option Verdict :=
  let starts (letters : String) : Bool := (Text.ofString letters).isPrefixOf (lowered (baseName path))
  if starts "uuf" then some .unsatisfiable
  else if starts "uf" then some .satisfiable
  else none

namespace Record

def isMismatch (r : Record) : Bool :=
  match r.expected, r.verdict with
  | some expected, some verdict => verdict != expected
  | _, _ => false

/-- A record without an error that has no verdict either cannot be written. -/
def line? (r : Record) : Option Text :=
  let name := Text.padRight 30 (baseName r.path)
  match r.error with
  | some e => some (name ++ " ERROR " ++ e)
  | none =>
    match r.verdict with
    | none => none
    | some verdict =>
      let line := name ++ " " ++ Text.padRight 14 verdict ++ " " ++
        Text.padLeft 10 (Text.fixed 4 r.seconds) ++ "s"
      match r.isMismatch, r.expected with
      | true, some expected => some (line ++ "  (expected " ++ expected ++ ")")
      | _, _ => some line

/-- Why `line?` has no answer. -/
def missingVerdict : String := "unsupported format string passed to NoneType.__format__"

end Record

structure Summary where
  files : Nat
  sat : Nat
  unsat : Nat
  errors : Nat
  mismatches : Nat
  times : TimeSummary

namespace Summary

def ofRecords (records : List Record) : Summary :=
  let solved := records.filter fun r => r.error.isNone
  { files := records.length
    sat := solved.countP fun r => r.verdict == some (Text.ofString Verdict.satisfiable.name)
    unsat := solved.countP fun r => r.verdict == some (Text.ofString Verdict.unsatisfiable.name)
    errors := records.length - solved.length
    mismatches := solved.countP Record.isMismatch
    times := .ofTimes (solved.map Record.seconds) }

def lines (s : Summary) : List String :=
  let seconds := Text.fixed 4
  [s!"{s.files} files: {s.sat} SAT, {s.unsat} UNSAT, {s.errors} errors, {s.mismatches} mismatches",
   s!"total {seconds s.times.total}s, mean {seconds s.times.mean}s, " ++
     s!"median {seconds s.times.median}s, max {seconds s.times.max}s"]

/-- Whether every file was read and no verdict disagrees with a name. -/
def isClean (s : Summary) : Bool := s.errors == 0 && s.mismatches == 0

end Summary

end Clausal.Benchmark

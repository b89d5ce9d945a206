import Clausal.Chunks
import Clausal.Dimacs.Printer
import Clausal.Solver

/-!
Answers in the output format of solver competitions: a verdict line, and for a satisfiable formula
the model on value lines, signed literals by ascending variable and a 0 after the last of them. Only
an answer whose literals can all be written is written.
-/
namespace Clausal

/-- Whether the answer shows no literal that cannot be written. A refutation shows none at all. -/
def Solution.isSayable (s : Solution) : Bool :=
  match s.verdict with
  | .unsatisfiable => true
  | .satisfiable => s.toLiterals.all Datum.isWritable

namespace Dimacs

/-- The words on the value lines. -/
def modelWords (s : Solution) : List Text := (s.toLiterals ++ [0]).map integerWord

/-- Without a width, and for a width of 0, everything stands on one line. A negative width leaves
room for nothing. -/
def lineWidth (width : Option Int) (count : Nat) : Nat :=
  match width with
  | none => count
  | some w => if w = 0 then count else w.toNat

def valueLines (s : Solution) (width : Option Int) : List Text :=
  let words := modelWords s
  (chunks (lineWidth width words.length) words).map fun line => joinWords ("v" :: line)

def answerLines (s : Solution) (width : Option Int) : List Text :=
  match s.verdict with
  | .unsatisfiable => ["s UNSATISFIABLE"]
  | .satisfiable => "s SATISFIABLE" :: valueLines s width

def renderAnswer (s : Solution) (width : Option Int) : Text :=
  List.intercalate [.char '\n'] (answerLines s width)

/-- The text of the answer, or what is said in its place. -/
def writeAnswer (s : Solution) (width : Option Int) : Except String Text :=
  if s.isSayable then .ok (renderAnswer s width) else .error Datum.tooManyDigits

end Dimacs

end Clausal

import Clausal.Formula

/-!
Writing DIMACS texts: comments, the problem line, then one line for each clause. Only a formula
whose integers can all be written is written.
-/
namespace Clausal.Dimacs

/-- Words with one space between them. -/
def joinWords (words : List Text) : Text := List.intercalate [.char ' '] words

/-- All digits of the integer, also where there are too many to be written. -/
def integerWord (n : Int) : Text := toString n

def commentLine (comment : Text) : Text := "c " ++ comment

def problemLine (f : Formula) : Text :=
  joinWords ["p", "cnf", integerWord f.numVariables, integerWord f.numClauses]

/-- The literals, closed by 0. -/
def clauseLine (c : Clause) : Text := joinWords ((c ++ [0]).map integerWord)

def fileLines (f : Formula) (comments : List Text) : List Text :=
  comments.map commentLine ++ problemLine f :: f.clauses.map clauseLine

/-- Every line is closed by a line feed. A comment that holds line ends takes several lines. -/
def render (f : Formula) (comments : List Text) : Text :=
  (fileLines f comments).flatMap (· ++ [.char '\n'])

/-- The text of the formula, or what is said in its place. -/
def write (f : Formula) (comments : List Text) : Except String Text :=
  if f.isSayable then .ok (render f comments) else .error Datum.tooManyDigits

end Clausal.Dimacs

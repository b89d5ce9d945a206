import Clausal.Dimacs.Error
import Clausal.Text.Integer

/-!
Reading DIMACS texts. A text is a sequence of lines, of which comments and blank ones are skipped;
a line that starts with a percent sign ends the input. The words of the other lines are read as one
stream of integers in which 0 closes a clause, so a clause may span lines and a line may hold
several. A problem line, if there is one, comes first and declares both counts.
-/
namespace Clausal.Dimacs

inductive Line where
  | skip
  | stop
  | problem (text : Text)
  | data (words : List Text)

/-- Lines are told apart by what they start with once blanks are trimmed. -/
def Line.ofText (raw : Text) : Line :=
  match Text.trim raw with
  | [] => .skip
  | .char 'c' :: _ => .skip
  | .char '%' :: _ => .stop
  | .char 'p' :: rest => .problem (.char 'p' :: rest)
  | text => .data (Text.words text)

structure Header where
  numVariables : Nat
  numClauses : Nat

/-- Of the four words the first only has to start with a `p`. -/
def Header.ofText (line : Nat) (text : Text) : Except DimacsError Header :=
  match Text.words text with
  | [_, format, numVariables, numClauses] =>
    if format = "cnf" then
      match Text.integer? numVariables, Text.integer? numClauses with
      | some n, some m =>
        if n < 0 ∨ m < 0 then .error (.negativeCount line text) else .ok ⟨n.toNat, m.toNat⟩
      | _, _ => .error (.malformedProblem line text)
    else .error (.malformedProblem line text)
  | _ => .error (.malformedProblem line text)

/-- What has been read so far. The newest clause and the newest literal of the clause in progress
come first; `start` is the line on which the clause in progress starts. -/
structure Scan where
  header : Option Header := none
  closed : List (List Int) := []
  current : List Int := []
  start : Option Nat := none

namespace Scan

/-- Whether a declared variable count rules the literal out. -/
def excludes (s : Scan) (l : Int) : Option Nat :=
  match s.header with
  | some h => if h.numVariables < Literal.var l then some h.numVariables else none
  | none => none

def readWord (line : Nat) (s : Scan) (word : Text) : Except DimacsError Scan :=
  match Text.integer? word with
  | none => .error (.invalidLiteral line word)
  | some l =>
    if l = 0 then
      .ok { s with closed := s.current.reverse :: s.closed, current := [], start := none }
    else
      match s.excludes l with
      | some n => .error (.literalOutside line l n)
      | none => .ok { s with current := l :: s.current, start := some (s.start.getD line) }

def readWords (line : Nat) (s : Scan) : List Text → Except DimacsError Scan
  | [] => .ok s
  | word :: rest =>
    match s.readWord line word with
    | .error e => .error e
    | .ok s => s.readWords line rest

def readProblem (line : Nat) (s : Scan) (text : Text) : Except DimacsError Scan :=
  if s.header.isSome then .error (.duplicateProblem line)
  else if !s.closed.isEmpty || !s.current.isEmpty then .error (.problemAfterClauses line)
  else
    match Header.ofText line text with
    | .error e => .error e
    | .ok h => .ok { s with header := some h }

/-- Reads lines, the first of which has number `line`. -/
def readLines (line : Nat) (s : Scan) : List Text → Except DimacsError Scan
  | [] => .ok s
  | raw :: rest =>
    match Line.ofText raw with
    | .skip => s.readLines (line + 1) rest
    | .stop => .ok s
    | .problem text =>
      match s.readProblem line text with
      | .error e => .error e
      | .ok s => s.readLines (line + 1) rest
    | .data words =>
      match s.readWords line words with
      | .error e => .error e
      | .ok s => s.readLines (line + 1) rest

/-- The clauses in the order of the text. Literals after the last 0 are a clause of their own. -/
def clauses (s : Scan) : List (List Int) :=
  (if s.current.isEmpty then s.closed else s.current.reverse :: s.closed).reverse

/-- The line on which a clause starts that no 0 closes. -/
def unclosed? (s : Scan) : Option Nat :=
  if s.current.isEmpty then none else s.start

def toFormula (s : Scan) : Except DimacsError Formula :=
  match s.header with
  | none => (Formula.ofLists s.clauses none).mapError .formula
  | some h =>
    if s.clauses.length = h.numClauses then
      (Formula.ofLists s.clauses (some h.numVariables)).mapError .formula
    else .error (.clauseCount h.numClauses s.clauses.length)

end Scan

def scan (text : Text) : Except DimacsError Scan :=
  Scan.readLines 1 {} (Text.lines text)

def parse (text : Text) : Except DimacsError Formula :=
  match scan text with
  | .error e => .error e
  | .ok s => s.toFormula

/-- What a talkative run reports about reading the text. -/
def parseLog (text : Text) : List String :=
  match scan text with
  | .error _ => []
  | .ok s =>
    match s.unclosed? with
    | some n => [s!"clause starting on line {n} has no terminating 0"]
    | none => []

end Clausal.Dimacs

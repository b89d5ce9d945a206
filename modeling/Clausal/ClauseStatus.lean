import Clausal.Tally
import Clausal.Trail

/-!
Clauses under a trail. A clause is satisfied by a true literal, falsified when all its literals are
false, and unit when exactly one is still open and the others are false. What remains of the clauses
that are not satisfied is the input of pure-literal elimination and of the branching heuristics.
-/
namespace Clausal

/-- What a partial assignment makes of a clause. -/
inductive ClauseStatus where
  | satisfied
  | falsified
  | unit (literal : Literal)
  | undetermined
deriving DecidableEq

namespace ClauseStatus

def name : ClauseStatus → String
  | .satisfied => "SATISFIED"
  | .falsified => "FALSIFIED"
  | .unit _ => "UNIT"
  | .undetermined => "UNDETERMINED"

def unitLiteral? : ClauseStatus → Option Literal
  | .unit l => some l
  | _ => none

/-- The status once one more open literal has been met. -/
def withOpen : ClauseStatus → Literal → ClauseStatus
  | .falsified, l => .unit l
  | _, _ => .undetermined

end ClauseStatus

namespace Trail

/-- Scans the rest of a clause whose literals so far were not true and amount to `seen`. A true
literal ends the scan, so what stands behind it is not looked up. -/
def statusFrom (t : Trail) (seen : ClauseStatus) : List Literal → Except Fault ClauseStatus
  | [] => .ok seen
  | l :: rest =>
    match t.literalValue l with
    | .error e => .error e
    | .ok (some true) => .ok .satisfied
    | .ok (some false) => t.statusFrom seen rest
    | .ok none => t.statusFrom (seen.withOpen l) rest

def clauseStatus (t : Trail) (c : Clause) : Except Fault ClauseStatus :=
  t.statusFrom .falsified c

def openLiterals (t : Trail) (c : Clause) : List Literal :=
  c.filter fun l => (t.value (Literal.var l)).isNone

/-- What is left of the clauses that are not satisfied: their open literals. -/
def residuals (t : Trail) : List Clause → Except Fault (List Clause)
  | [] => .ok []
  | c :: rest =>
    match t.clauseStatus c with
    | .error e => .error e
    | .ok status =>
      match t.residuals rest with
      | .error e => .error e
      | .ok cs => .ok (if status = .satisfied then cs else t.openLiterals c :: cs)

/-- The first clause that is not satisfied settles the answer. -/
def allSatisfied (t : Trail) : List Clause → Except Fault Bool
  | [] => .ok true
  | c :: rest =>
    match t.clauseStatus c with
    | .error e => .error e
    | .ok .satisfied => t.allSatisfied rest
    | .ok _ => .ok false

/-- A tally of literals of the trail's variables. -/
def tally (t : Trail) (literals : List Literal) : Tally :=
  .ofLiterals t.values.size literals

end Trail

end Clausal

import Clausal.ClauseStatus
import Clausal.Formula

/-!
Branching heuristics: which variable to decide next, and which value to try first. All of them but
the first rank variables by how often they occur in what is left of the unsatisfied clauses. Ties
go to the lower variable, and among its literals to the positive one.
-/
namespace Clausal

inductive Heuristic where
  | order
  | mostLiteral
  | mostVariable
  | polarity
  | minClauseLength
deriving DecidableEq

namespace Heuristic

def all : List Heuristic := [.order, .mostLiteral, .mostVariable, .polarity, .minClauseLength]

def name : Heuristic → String
  | .order => "order"
  | .mostLiteral => "most_literal"
  | .mostVariable => "most_variable"
  | .polarity => "polarity"
  | .minClauseLength => "min_clause_length"

def ofName? (name : Text) : Option Heuristic := all.find? fun h => name == h.name

end Heuristic

namespace Trail

/-- The open literals of the unsatisfied clauses, each as often as it occurs. With a size, only
clauses with exactly that many open literals count. -/
def occurrences (t : Trail) (clauses : List Clause) (size : Option Int) : Except Fault Tally :=
  match t.residuals clauses with
  | .error e => .error e
  | .ok left =>
    match size with
    | none => .ok (t.tally left.flatten)
    | some k => .ok (t.tally (left.filter fun c => (c.length : Int) == k).flatten)

/-- Whether every variable up to the count has a cell. -/
def covers (t : Trail) (count : Nat) : Bool := count == 0 || count < t.values.size

/-- The first variable without a value among `count` variables, of which the first one is `v`. -/
def firstUnassigned (t : Trail) (v : Nat) : Nat → Except Fault Nat
  | 0 => .error .noVariableLeft
  | count + 1 =>
    match t.lookup v with
    | .error e => .error e
    | .ok none => .ok v
    | .ok (some _) => t.firstUnassigned (v + 1) count

end Trail

namespace Formula

def vars (f : Formula) : List Nat := List.range' 1 f.numVariables

/-- The variables of the formula that have no value on the trail. -/
def openVars (f : Formula) (t : Trail) : Except Fault (List Nat) :=
  if t.covers f.numVariables then .ok (f.vars.filter fun v => (t.value v).isNone)
  else .error .outOfTable

end Formula

namespace Heuristic

/-- Clause sizes by which `minClauseLength` ranks, the most important first. -/
def shortSizes : List Nat := [2, 3, 4]

/-- Weights of the more frequent and of the less frequent sign of a variable. -/
def majorWeight : Nat := 1

def minorWeight : Nat := 1

def score (τ : Tally) (v : Nat) : Nat :=
  majorWeight * max (τ.count v) (τ.count (-(v : Int))) +
    minorWeight * min (τ.count v) (τ.count (-(v : Int)))

/-- Keeps the candidates of the greatest score, round by round, until one is left. -/
def narrow (candidates : List Nat) : List (Nat → Nat) → List Nat
  | [] => candidates
  | score :: rest =>
    let best := (candidates.map score).foldl max 0
    let kept := candidates.filter fun v => score v == best
    if kept.length = 1 then kept else narrow kept rest

def chooseOrdered (f : Formula) (t : Trail) : Except Fault (Nat × Bool) :=
  match t.firstUnassigned 1 f.numVariables with
  | .error e => .error e
  | .ok v => .ok (v, true)

/-- The most frequent literal is made true first. -/
def chooseMostLiteral (f : Formula) (t : Trail) : Except Fault (Nat × Bool) :=
  match t.occurrences f.clauses none with
  | .error e => .error e
  | .ok τ =>
    match (τ.candidates.filter fun l => 0 < τ.count l).maxOn? τ.count with
    | some l => .ok (Literal.var l, Literal.isPositive l)
    | none => chooseOrdered f t

def chooseMostVariable (f : Formula) (t : Trail) : Except Fault (Nat × Bool) :=
  match t.occurrences f.clauses none with
  | .error e => .error e
  | .ok τ =>
    match (τ.vars.filter fun v => 0 < τ.total v).maxOn? τ.total with
    | some v => .ok (v, true)
    | none => chooseOrdered f t

/-- The most frequent variable gets the sign that is more frequent in the whole formula first. -/
def choosePolarity (f : Formula) (t : Trail) : Except Fault (Nat × Bool) :=
  match chooseMostVariable f t with
  | .error e => .error e
  | .ok (v, _) => .ok (v, 0 ≤ f.polarityScore v)

/-- The most frequent variable of the shortest clauses gets the sign that is more frequent in all
unsatisfied clauses first, the negative one if neither is. -/
def chooseMinClauseLength (f : Formula) (t : Trail) : Except Fault (Nat × Bool) :=
  match f.openVars t with
  | .error e => .error e
  | .ok candidates =>
    match t.residuals f.clauses with
    | .error e => .error e
    | .ok left =>
      let scores := shortSizes.map fun k => score (t.tally (left.filter (·.length == k)).flatten)
      match narrow candidates scores with
      | [] => .error .noVariableLeft
      | v :: _ =>
        let τ := t.tally left.flatten
        .ok (v, τ.count (-(v : Int)) < τ.count v)

def choose (h : Heuristic) (f : Formula) (t : Trail) : Except Fault (Nat × Bool) :=
  match h with
  | .order => chooseOrdered f t
  | .mostLiteral => chooseMostLiteral f t
  | .mostVariable => chooseMostVariable f t
  | .polarity => choosePolarity f t
  | .minClauseLength => chooseMinClauseLength f t

end Heuristic

end Clausal

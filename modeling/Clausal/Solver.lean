import Clausal.Search

/-!
Deciding a formula: the answer, the model with it, and the counters of the search. A formula with
an empty clause is refuted without a search; any other one needs a trail, and there is none over too
many variables. A model is held against the formula before it is handed out, unless that check is
switched off.
-/
namespace Clausal

inductive Verdict where
  | satisfiable
  | unsatisfiable
deriving DecidableEq

namespace Verdict

def name : Verdict → String
  | .satisfiable => "SATISFIABLE"
  | .unsatisfiable => "UNSATISFIABLE"

end Verdict

structure Config where
  heuristic : Heuristic := .order
  pureLiterals : Bool := true
  verify : Bool := true

structure Solution where
  verdict : Verdict
  assignment : Option Assignment
  stats : Stats

namespace Solution

def isSatisfiable (s : Solution) : Bool := s.verdict == .satisfiable

/-- The model as signed literals; there are none without a model. -/
def toLiterals (s : Solution) : List Int :=
  match s.assignment with
  | some a => a.toLiterals
  | none => []

end Solution

namespace Formula

/-- What a search that ended with `found` amounts to. -/
def conclude (f : Formula) (verify : Bool) (found : Option Assignment) (stats : Stats) :
    Except Fault Solution :=
  match found with
  | none => .ok ⟨.unsatisfiable, none, stats⟩
  | some a =>
    if verify && !f.satisfiedBy a.valuation then .error .modelRefuted
    else .ok ⟨.satisfiable, some a, stats⟩

/-- Decides the formula by means of a search from a trail without entries. Neither is called for
when a clause is empty. -/
def solveBy (f : Formula) (verify : Bool)
    (search : Trail → Except Fault (Option Assignment) × Stats) : Except Fault Solution :=
  if f.hasEmptyClause then .ok ⟨.unsatisfiable, none, {}⟩
  else
    match Trail.create f.numVariables with
    | .error e => .error (.start e)
    | .ok t =>
      match search t with
      | (.error e, _) => .error e
      | (.ok found, stats) => f.conclude verify found stats

def solve (f : Formula) (config : Config) : Except Fault Solution :=
  f.solveBy config.verify fun t =>
    let (found, s) := f.search config.heuristic config.pureLiterals t {}
    (found, s.stats)

/-- What a talkative run reports about solving the formula, given the outcome. -/
def solveLog (f : Formula) (config : Config) (outcome : Except Fault Solution) : List String :=
  let shown (b : Bool) : String := if b then "True" else "False"
  s!"solving {f.numVariables} variables, {f.numClauses} clauses (heuristic={config.heuristic.name}, pure_literals={shown config.pureLiterals})" ::
    if f.hasEmptyClause then ["empty clause in input, UNSAT without search"]
    else
      match outcome with
      | .error _ => []
      | .ok s => [(if s.isSatisfiable then "SAT " else "UNSAT ") ++ s.stats.describe]

end Formula

end Clausal

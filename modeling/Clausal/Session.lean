import Clausal.Search

/-!
Working on one trail by hand: assignments, backtracking, propagation and searches in any order. A
session keeps the history of its trail since its latest search began; a search starts the history
anew, and what is done after it is added to it.
-/
namespace Clausal

structure Session where
  trail : Trail
  stats : Stats
  history : History

namespace Session

def start (numVariables : Int) : Except StartError Session :=
  match Trail.create numVariables with
  | .error e => .error e
  | .ok t => .ok ⟨t, {}, []⟩

/-- Takes over a trail that has grown from the session's own. -/
def grow (s : Session) (t : Trail) (stats : Stats) : Session :=
  ⟨t, stats, History.growth s.trail t ++ s.history⟩

def assign (s : Session) (v : Int) (b : Bool) (kind : Datum) : Except Fault Session :=
  match s.trail.assignNamed v b kind with
  | .error e => .error e
  | .ok t => .ok (s.grow t s.stats)

def backtrackTo (s : Session) (token : Int) : Except Fault Session :=
  match s.trail.backtrackTo token with
  | .error e => .error e
  | .ok t => .ok { s with trail := t, history := .backtracked token.toNat :: s.history }

/-- Runs a rule of propagation. What it did before a fault is kept. -/
def run {α : Type} (s : Session) (rule : Progress → Except Fault α × Progress) :
    Except Fault α × Session :=
  match rule ⟨s.trail, s.stats⟩ with
  | (outcome, p) => (outcome, s.grow p.trail p.stats)

/-- Searches for a model that agrees with the trail. -/
def search (s : Session) (f : Formula) (h : Heuristic) (pureLiterals : Bool) :
    Except Fault (Option Assignment) × Session :=
  match f.search h pureLiterals s.trail s.stats with
  | (outcome, u) => (outcome, ⟨u.trail, u.stats, u.history⟩)

end Session

end Clausal

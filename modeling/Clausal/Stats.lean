/-!
Counters of one search.
-/
namespace Clausal

structure Stats where
  decisions : Nat := 0
  propagations : Nat := 0
  pureLiterals : Nat := 0
  conflicts : Nat := 0
  backtracks : Nat := 0
  maxDepth : Nat := 0
deriving DecidableEq

namespace Stats

def addPropagation (s : Stats) : Stats := { s with propagations := s.propagations + 1 }

def addPureLiterals (s : Stats) (n : Nat) : Stats := { s with pureLiterals := s.pureLiterals + n }

def addConflict (s : Stats) : Stats := { s with conflicts := s.conflicts + 1 }

def addBacktrack (s : Stats) : Stats := { s with backtracks := s.backtracks + 1 }

def addDecision (s : Stats) : Stats := { s with decisions := s.decisions + 1 }

/-- The search has reached a depth of `depth` open branch points. -/
def reach (s : Stats) (depth : Nat) : Stats := { s with maxDepth := max s.maxDepth depth }

/-- The counters with the names under which they are reported. -/
def fields (s : Stats) : List (String × Nat) :=
  [("decisions", s.decisions), ("propagations", s.propagations), ("pure_literals", s.pureLiterals),
   ("conflicts", s.conflicts), ("backtracks", s.backtracks), ("max_depth", s.maxDepth)]

def describe (s : Stats) : String :=
  "SolverStats(" ++ ", ".intercalate (s.fields.map fun (name, n) => s!"{name}={n}") ++ ")"

end Stats

end Clausal

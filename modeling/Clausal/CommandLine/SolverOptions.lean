import Clausal.CommandLine.Arguments
import Clausal.Options

/-!
The options for the solver that every command takes.
-/
namespace Clausal.CommandLine

def heuristicOption : OptionSpec where
  long := "--heuristic"
  kind := .value (.oneOf (Heuristic.all.map Heuristic.name))

def noPureLiteralsOption : OptionSpec := { long := "--no_pure_literals", kind := .flag }

def noVerifyOption : OptionSpec := { long := "--no_verify", kind := .flag }

/-- An option that is set to nothing holds an empty list. -/
def OptionValue.toDatum : OptionValue → Datum
  | .given text => .text text
  | .nothing => .list []

def solverOptions (a : Arguments) : Options where
  heuristic := ((a.value? heuristicOption.long).map OptionValue.toDatum).getD
    (.text Heuristic.order.name)
  pureLiterals := .flag !a.has noPureLiteralsOption.long
  verify := .flag !a.has noVerifyOption.long

end Clausal.CommandLine

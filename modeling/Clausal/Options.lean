import Clausal.Solver

/-!
Solver options as callers give them: named values of any type. Names are checked when the options
are read, the name of the heuristic only when they are put to use.
-/
namespace Clausal

structure Options where
  heuristic : Datum := .text Heuristic.order.name
  pureLiterals : Datum := .flag true
  verify : Datum := .flag true

/-- A name is taken if it stands for something that is given apart from the options: the kind of
options, or a part of the formula beside them. -/
inductive OptionError where
  | unknownOption (name : Text)
  | takenOption (name : Text)
  | takenByFormula (name : Text)
  | unknownHeuristic (value : Datum)

namespace OptionError

def description : OptionError → Text
  | .unknownOption name =>
    "SolverConfig.__new__() got an unexpected keyword argument '" ++ name ++ "'"
  | .takenOption name =>
    "SolverConfig.__new__() got multiple values for argument '" ++ name ++ "'"
  | .takenByFormula name => "solve_sat() got multiple values for argument '" ++ name ++ "'"
  | .unknownHeuristic value =>
    Text.ofString s!"unknown heuristic {value.describe}, expected one of " ++
      ", ".intercalate (Heuristic.all.map Heuristic.name)

/-- Whether the message shows no integer that cannot be written. -/
def isSayable : OptionError → Bool
  | .unknownHeuristic value => value.isDescribable
  | _ => true

def message (e : OptionError) : Text := if e.isSayable then e.description else Datum.tooManyDigits

end OptionError

namespace Options

def set (o : Options) (name : Text) (value : Datum) : Except OptionError Options :=
  if name = "heuristic" then .ok { o with heuristic := value }
  else if name = "pure_literals" then .ok { o with pureLiterals := value }
  else if name = "verify" then .ok { o with verify := value }
  else if name = "_cls" then .error (.takenOption name)
  else .error (.unknownOption name)

/-- The first name that is refused is the one that is reported. -/
def ofFields (fields : List (Text × Datum)) : Except OptionError Options :=
  fields.foldlM (fun o (name, value) => o.set name value) {}

/-- Anything but a table of options stands for the defaults. -/
def ofDatum : Datum → Except OptionError Options
  | .table fields => ofFields fields
  | _ => .ok {}

/-- The parts of a formula that options stand beside. -/
def formulaParts : List Text := ["clauses", "num_variables"]

/-- The first of the options that has the name of a part of the formula. -/
def clash? : Datum → Option OptionError
  | .table fields => ((fields.map Prod.fst).find? formulaParts.contains).map .takenByFormula
  | _ => none

def heuristic? (value : Datum) : Except OptionError Heuristic :=
  match value with
  | .text name =>
    match Heuristic.ofName? name with
    | some h => .ok h
    | none => .error (.unknownHeuristic value)
  | _ => .error (.unknownHeuristic value)

def toConfig (o : Options) : Except OptionError Config :=
  match heuristic? o.heuristic with
  | .error e => .error e
  | .ok h => .ok ⟨h, o.pureLiterals.holds, o.verify.holds⟩

end Options

end Clausal

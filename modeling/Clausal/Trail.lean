import Clausal.Assignment
import Clausal.Datum
import Clausal.Literal

/-!
The assignment trail: an ordered log of assignments that only grows until it is cut back to an
earlier length. A table beside the log answers for the value of a variable in one step.
-/
namespace Clausal

/-- An assignment is either guessed or a consequence of what was assigned before it. -/
inductive Entry.Kind where
  | decision
  | forced
deriving DecidableEq

namespace Entry.Kind

def name : Kind → String
  | .decision => "decision"
  | .forced => "forced"

def ofDatum? : Datum → Option Kind
  | .text name =>
    if name = decision.name then some .decision
    else if name = forced.name then some .forced
    else none
  | _ => none

end Entry.Kind

structure Entry where
  var : Nat
  value : Bool
  kind : Entry.Kind
deriving DecidableEq

/-- Why a trail over a number of variables cannot be made. -/
inductive StartError where
  | uncountable
  | noRoom

/-- There is nothing to say about a lack of room. -/
def StartError.message : StartError → String
  | .uncountable => "cannot fit 'int' into an index-sized integer"
  | .noRoom => ""

/-- Why there is no trail, or why an operation on it, or the search that uses it, cannot go on.
Cells are only missing from a trail over fewer variables than the formula has; the other faults of a
trail that was made are violated invariants or requests from outside. -/
inductive Fault where
  | start (error : StartError)
  | outOfTable
  | unaddressable
  | variableOutside (var count : Int)
  | unknownKind (kind : Datum)
  | alreadyAssigned (var : Int)
  | badCheckpoint (token : Int) (size : Nat)
  | noVariableLeft
  | modelRefuted

namespace Fault

def message : Fault → String
  | .start e => e.message
  | .outOfTable => "list index out of range"
  | .unaddressable => "cannot fit 'int' into an index-sized integer"
  | .variableOutside v n => s!"variable {v} outside [1, {n}]"
  | .unknownKind kind => s!"unknown assignment kind {kind.describe}"
  | .alreadyAssigned v => s!"variable {v} is already assigned"
  | .badCheckpoint token size => s!"cannot backtrack to {token}, trail holds {size} entries"
  | .noVariableLeft => "no unassigned variable left to branch on"
  | .modelRefuted => "search returned an assignment that falsifies the formula"

/-- Why a table has no cell at a position. A position that does not fit into 64 bits with a sign is
not looked up in any table. -/
def noCell (position : Int) : Fault :=
  if -0x8000000000000000 ≤ position ∧ position < 0x8000000000000000 then .outOfTable
  else .unaddressable

end Fault

/-- The newest entry comes first. The table has a cell for 0, which is never assigned, and one
for each variable; `level` counts the decisions among the entries. -/
structure Trail where
  numVariables : Int
  values : Array (Option Bool)
  entries : List Entry
  level : Nat

namespace Trail

/-- With a negative count there is no cell at all. -/
def empty (numVariables : Int) : Trail where
  numVariables := numVariables
  values := Array.replicate (numVariables + 1).toNat none
  entries := []
  level := 0

/-- No table has as many cells: a cell takes eight bytes, and the bytes of a table are counted in 64
bits with a sign. -/
def maxCells : Int := 0x1000000000000000

/-- A trail without entries, if it can be made. The number of its cells has to fit into 64 bits with
a sign, also if it is negative. -/
def create (numVariables : Int) : Except StartError Trail :=
  let cells := numVariables + 1
  if cells < -0x8000000000000000 ∨ 0x7FFFFFFFFFFFFFFF < cells then .error .uncountable
  else if maxCells ≤ cells then .error .noRoom
  else .ok (.empty numVariables)

theorem create_of_lt {n : Nat} (room : (n : Int) + 1 < maxCells) : create n = .ok (.empty n) := by
  rw [maxCells] at room
  rw [create, if_neg (by omega), if_neg (by rw [maxCells]; omega)]

theorem create_of_le {n : Nat} (many : 0x7FFFFFFFFFFFFFFF ≤ n) :
    create n = .error .uncountable :=
  if_pos (.inr (by omega))

theorem exists_create_eq_error {n : Nat} (full : maxCells ≤ (n : Int) + 1) :
    ∃ e, create n = .error e := by
  rw [create]
  split
  · exact ⟨_, rfl⟩
  · exact ⟨_, rfl⟩

def size (t : Trail) : Nat := t.entries.length

/-- The current length is the token to which the trail can later be cut back. -/
def checkpoint (t : Trail) : Nat := t.size

def isComplete (t : Trail) : Bool := (t.size : Int) == t.numVariables

/-- The entries in the order in which they were made. -/
def chronological (t : Trail) : List Entry := t.entries.reverse

/-- The value of a variable, or nothing, also for what is not a variable of the trail. -/
def value (t : Trail) (v : Nat) : Option Bool := (t.values[v]?).join

/-- The cell of a variable. -/
def lookup (t : Trail) (v : Nat) : Except Fault (Option Bool) :=
  match t.values[v]? with
  | some cell => .ok cell
  | none => .error (.noCell v)

/-- The cell at a position; negative positions count from the end of the table. -/
def valueAt (t : Trail) (position : Int) : Except Fault (Option Bool) :=
  let fromStart := if position < 0 then position + t.values.size else position
  if fromStart < 0 then .error (.noCell position) else t.lookup fromStart.toNat

/-- Whether the literal is true, false or still open. -/
def literalValue (t : Trail) (l : Literal) : Except Fault (Option Bool) :=
  match t.lookup (Literal.var l) with
  | .ok cell => .ok (cell.map (Literal.under l))
  | .error e => .error e

def assign (t : Trail) (v : Int) (b : Bool) (kind : Entry.Kind) : Except Fault Trail :=
  if 1 ≤ v ∧ v ≤ t.numVariables then
    match t.values[v.toNat]? with
    | none => .error .outOfTable
    | some (some _) => .error (.alreadyAssigned v)
    | some none =>
      .ok { t with
        values := t.values.setIfInBounds v.toNat (some b)
        entries := ⟨v.toNat, b, kind⟩ :: t.entries
        level := if kind = .decision then t.level + 1 else t.level }
  else .error (.variableOutside v t.numVariables)

/-- Assignment with a kind from outside. The variable is checked before the kind. -/
def assignNamed (t : Trail) (v : Int) (b : Bool) (kind : Datum) : Except Fault Trail :=
  if 1 ≤ v ∧ v ≤ t.numVariables then
    match Entry.Kind.ofDatum? kind with
    | none => .error (.unknownKind kind)
    | some kind => t.assign v b kind
  else .error (.variableOutside v t.numVariables)

/-- Makes the literal true. -/
def force (t : Trail) (l : Literal) : Except Fault Trail :=
  t.assign (Literal.var l) (Literal.isPositive l) .forced

/-- Takes back the newest entry. -/
def undo (t : Trail) : Trail :=
  match t.entries with
  | [] => t
  | e :: rest =>
    { t with
      values := t.values.setIfInBounds e.var none
      entries := rest
      level := if e.kind = .decision then t.level - 1 else t.level }

def undoMany : Nat → Trail → Trail
  | 0, t => t
  | n + 1, t => undoMany n t.undo

/-- The trail as it was when it held `k` entries. -/
def rewind (t : Trail) (k : Nat) : Trail := undoMany (t.size - k) t

def backtrackTo (t : Trail) (token : Int) : Except Fault Trail :=
  if 0 ≤ token ∧ token ≤ t.size then .ok (t.rewind token.toNat)
  else .error (.badCheckpoint token t.size)

/-- The assignment in the order in which it was made. -/
def assignment (t : Trail) : Assignment :=
  t.chronological.map fun e => ((e.var : Int), e.value)

end Trail

end Clausal

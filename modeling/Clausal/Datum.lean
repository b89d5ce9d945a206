import Clausal.Text.Integer
import Clausal.Text.Quoted

/-!
Untyped values as callers hand them in: clauses, counts and option values are only known to be
well typed after they have been checked. A value can be described for an error message, walked
through element by element, and read as a condition.
-/
namespace Clausal

/-- A decimal keeps its written form, the only thing about it that is ever shown. The fields of
a table keep the order in which they were given. -/
inductive Datum where
  | null
  | flag (value : Bool)
  | integer (value : Int)
  | decimal (written : String)
  | text (value : Text)
  | list (items : List Datum)
  | table (fields : List (Text × Datum))

namespace Datum

mutual

/-- The value as messages show it. -/
def describe : Datum → String
  | .null => "None"
  | .flag true => "True"
  | .flag false => "False"
  | .integer n => toString n
  | .decimal written => written
  | .text s => Text.quoted s
  | .list items => "[" ++ ", ".intercalate (describeAll items) ++ "]"
  | .table fields => "\x7b" ++ ", ".intercalate (describeFields fields) ++ "\x7d"

def describeAll : List Datum → List String
  | [] => []
  | item :: rest => item.describe :: describeAll rest

def describeFields : List (Text × Datum) → List String
  | [] => []
  | (key, value) :: rest => (Text.quoted key ++ ": " ++ value.describe) :: describeFields rest

end

/-- An integer with more digits than can be read is not written either. -/
def isWritable (n : Int) : Bool := n.natAbs < Nat.pow 10 Text.maxDigits

/-- What is said in place of a message that would have to show an integer that is not written. -/
def tooManyDigits : String :=
  s!"Exceeds the limit ({Text.maxDigits} digits) for integer string conversion; " ++
    "use sys.set_int_max_str_digits() to increase the limit"

mutual

/-- Whether every integer in the value can be written. -/
def isDescribable : Datum → Bool
  | .integer n => isWritable n
  | .list items => areDescribable items
  | .table fields => haveDescribable fields
  | _ => true

def areDescribable : List Datum → Bool
  | [] => true
  | item :: rest => item.isDescribable && areDescribable rest

def haveDescribable : List (Text × Datum) → Bool
  | [] => true
  | (_, value) :: rest => value.isDescribable && haveDescribable rest

end

/-- What the value is called when it is of the wrong kind. -/
def kindName : Datum → String
  | .null => "NoneType"
  | .flag _ => "bool"
  | .integer _ => "int"
  | .decimal _ => "float"
  | .text _ => "str"
  | .list _ => "list"
  | .table _ => "dict"

/-- The elements of a collection: a text consists of one-character texts, a table of its keys.
Anything else has no elements. -/
def elements? : Datum → Option (List Datum)
  | .text s => some (s.map fun c => .text [c])
  | .list items => some items
  | .table fields => some (fields.map fun field => .text field.1)
  | _ => none

/-- Zero and whatever is empty count as false. A decimal is zero if all its digits are; the special
values are written in letters. -/
def holds : Datum → Bool
  | .null => false
  | .flag b => b
  | .integer n => n != 0
  | .decimal written =>
    (written.toList.takeWhile fun c => c != 'e').any fun c => '1' ≤ c && c ≤ '9' || c.isAlpha
  | .text s => !s.isEmpty
  | .list items => !items.isEmpty
  | .table fields => !fields.isEmpty

end Datum

end Clausal

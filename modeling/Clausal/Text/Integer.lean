import Clausal.Text.Digit
import Clausal.Text.Line

/-!
Integers in words: an optional sign, then groups of decimal digits with one underscore between
two groups. Digits of different scripts may be mixed. Leading zeros are digits like the others,
and a word with more digits than `maxDigits` is refused.
-/
namespace Clausal.Text

def maxDigits : Nat := 4300

def natural? (word : Text) : Option Nat :=
  let groups := word.splitOn (.char '_')
  if groups.any (·.isEmpty) then none
  else
    match groups.flatten.mapM digitValue? with
    | some digits =>
      if digits.length ≤ maxDigits then some (digits.foldl (fun n d => 10 * n + d) 0) else none
    | none => none

def integer? : Text → Option Int
  | .char '-' :: rest => (natural? rest).map fun n => -(n : Int)
  | .char '+' :: rest => (natural? rest).map Int.ofNat
  | word => (natural? word).map Int.ofNat

/-- The four separators from U+001C to U+001F are blanks in a line, but they do not belong around a
number. -/
def isNumberBlank (c : CodePoint) : Bool :=
  isBlank c && !(0x1C ≤ c.toNat && c.toNat ≤ 0x1F)

/-- An integer that stands alone in a text, with blanks around it. -/
def paddedInteger? (text : Text) : Option Int :=
  integer? ((text.dropWhile isNumberBlank).reverse.dropWhile isNumberBlank).reverse

end Clausal.Text

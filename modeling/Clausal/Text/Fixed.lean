import Clausal.Text.CodePoint

/-!
Floating-point numbers with a fixed number of decimal places. The exact binary value is rounded
once, and of two equally near results the one with an even last digit is taken.
-/
namespace Clausal.Text

/-- The quotient rounded to the nearest integer, ties to the even one. -/
def roundQuotient (num den : Nat) : Nat :=
  let quotient := num / den
  let twice := 2 * (num % den)
  if twice < den then quotient
  else if den < twice then quotient + 1
  else quotient + quotient % 2

/-- A finite number is `significand * 2 ^ exponent`, with a sign. -/
structure Binary where
  negative : Bool
  significand : Nat
  exponent : Int

inductive FloatClass where
  | nan
  | infinite (negative : Bool)
  | finite (value : Binary)

/-- The leading bit of a normal significand. -/
def leadingBit : Nat := 0x10000000000000

def classify (x : Float) : FloatClass :=
  let bits := x.toBits.toNat
  let negative := 0x8000000000000000 ≤ bits
  let biased : Nat := bits / leadingBit % 0x800
  let fraction : Nat := bits % leadingBit
  if biased = 2047 then
    if fraction = 0 then .infinite negative else .nan
  else if biased = 0 then .finite ⟨negative, fraction, -1074⟩
  else .finite ⟨negative, leadingBit + fraction, biased - 1075⟩

/-- The magnitude in units of the last of `places` places. -/
def Binary.scaled (b : Binary) (places : Nat) : Nat :=
  let num := b.significand * Nat.pow 10 places
  if 0 ≤ b.exponent then num <<< b.exponent.toNat
  else roundQuotient num (1 <<< (-b.exponent).toNat)

def digitsWithPoint (places n : Nat) : String :=
  let digits := toString n
  let padded := String.ofList (List.replicate (places + 1 - digits.length) '0') ++ digits
  let whole := padded.length - places
  String.ofList (padded.toList.take whole) ++ "." ++ String.ofList (padded.toList.drop whole)

/-- A negative number keeps its sign even if it is rounded to zero. -/
def fixed (places : Nat) (x : Float) : String :=
  match classify x with
  | .nan => "nan"
  | .infinite negative => if negative then "-inf" else "inf"
  | .finite b => (if b.negative then "-" else "") ++ digitsWithPoint places (b.scaled places)

def padLeft (width : Nat) (text : Text) : Text :=
  List.replicate (width - text.length) (.char ' ') ++ text

def padRight (width : Nat) (text : Text) : Text :=
  text ++ List.replicate (width - text.length) (.char ' ')

end Clausal.Text

import Clausal.Text.CodePoint
import Clausal.Text.Printable

/-!
Quoted text. The quote mark, the backslash and everything that cannot be shown is escaped, so a
quoted text fits on one line and shows where it starts and ends. It consists of characters only.
-/
namespace Clausal.Text

/-- Single quotes, unless the text holds one of them and no double quote. -/
def quoteMark (text : Text) : Char :=
  if text.contains (.char '\x27') && !text.contains (.char '\x22') then '\x22' else '\x27'

/-- At least `width` lower-case hexadecimal digits. -/
def hexDigits (width n : Nat) : List Char :=
  let digits := Nat.toDigits 16 n
  List.replicate (width - digits.length) '0' ++ digits

/-- The shortest of three escapes with two, four and eight digits. -/
def numberEscape (n : Nat) : List Char :=
  if n < 0x100 then '\x5C' :: 'x' :: hexDigits 2 n
  else if n < 0x10000 then '\x5C' :: 'u' :: hexDigits 4 n
  else '\x5C' :: 'U' :: hexDigits 8 n

def escapeChar (shown : Char → Bool) (mark c : Char) : List Char :=
  if c == mark || c == '\x5C' then ['\x5C', c]
  else if c == '\n' then ['\x5C', 'n']
  else if c == '\r' then ['\x5C', 'r']
  else if c == '\t' then ['\x5C', 't']
  else if shown c then [c]
  else numberEscape c.toNat

def escape (shown : Char → Bool) (mark : Char) : CodePoint → List Char
  | .char c => escapeChar shown mark c
  | .surrogate i => numberEscape (CodePoint.surrogate i).toNat

def quoteWith (shown : Char → Bool) (text : Text) : List Char :=
  let mark := quoteMark text
  mark :: text.flatMap (escape shown mark) ++ [mark]

def quote (text : Text) : List Char :=
  quoteWith isPrintable text

def quoted (text : Text) : String :=
  String.ofList (quote text)

/-- Bytes are quoted as text is, but only printable ASCII is shown. -/
def quotedBytes (bytes : List UInt8) : String :=
  let shown (c : Char) : Bool := 0x20 ≤ c.toNat && c.toNat ≤ 0x7E
  String.ofList ('b' :: quoteWith shown (bytes.map fun b => .ofNat b.toNat))

end Clausal.Text

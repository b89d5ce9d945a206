import Clausal.Text.Quoted

/-!
UTF-8, written and read strictly. Surrogates have no UTF-8: what is refused when a text is written is
the first of them with those that follow it directly. Only shortest forms of scalar values are read.
What is refused is the first sequence that goes wrong: as many of its bytes as could still have become
a character, and at least one.
-/
namespace Clausal.Text

inductive Utf8Reason where
  | invalidStart
  | invalidContinuation
  | unexpectedEnd
deriving DecidableEq

/-- The refused bytes, where the first of them stands, and what is wrong. -/
structure Utf8Error where
  bytes : List UInt8
  position : Nat
  reason : Utf8Reason
deriving DecidableEq

namespace Utf8Reason

def message : Utf8Reason → String
  | .invalidStart => "invalid start byte"
  | .invalidContinuation => "invalid continuation byte"
  | .unexpectedEnd => "unexpected end of data"

end Utf8Reason

namespace Utf8Error

def byteText (b : UInt8) : String :=
  let digits := Nat.toDigits 16 b.toNat
  "0x" ++ String.ofList (List.replicate (2 - digits.length) '0' ++ digits)

def place (e : Utf8Error) : String :=
  match e.bytes with
  | [b] => s!"byte {byteText b} in position {e.position}"
  | bytes => s!"bytes in position {e.position}-{e.position + bytes.length - 1}"

def message (e : Utf8Error) : String :=
  "'utf-8' codec can't decode " ++ e.place ++ ": " ++ e.reason.message

end Utf8Error

/-- A sequence whose first bytes have been read: its bits so far, how many bytes are missing, and
between which bounds the next one must lie. The bytes are kept, the newest first. -/
structure Utf8Sequence where
  bits : Nat
  missing : Nat
  low : Nat
  high : Nat
  bytes : List UInt8

/-- What a first byte announces. The bounds for the second byte keep out long forms, surrogates
and values beyond the last scalar value. -/
def Utf8Sequence.start? (b : UInt8) : Option Utf8Sequence :=
  let n := b.toNat
  if n < 0xC2 then none
  else if n < 0xE0 then some ⟨n - 0xC0, 1, 0x80, 0xBF, [b]⟩
  else if n < 0xF0 then
    some ⟨n - 0xE0, 2, if n = 0xE0 then 0xA0 else 0x80, if n = 0xED then 0x9F else 0xBF, [b]⟩
  else if n < 0xF5 then
    some ⟨n - 0xF0, 3, if n = 0xF0 then 0x90 else 0x80, if n = 0xF4 then 0x8F else 0xBF, [b]⟩
  else none

/-- Reads bytes from a position on; `started` is the sequence in progress, and the characters read so
far are kept with the newest first. -/
def decodeUtf8From (position : Nat) (done : Text) (started : Option Utf8Sequence) :
    List UInt8 → Except Utf8Error Text
  | [] =>
    match started with
    | none => .ok done.reverse
    | some s => .error ⟨s.bytes.reverse, position - s.bytes.length, .unexpectedEnd⟩
  | b :: rest =>
    match started with
    | none =>
      if b.toNat < 0x80 then
        decodeUtf8From (position + 1) (.char (.ofNat b.toNat) :: done) none rest
      else
        match Utf8Sequence.start? b with
        | none => .error ⟨[b], position, .invalidStart⟩
        | some s => decodeUtf8From (position + 1) done (some s) rest
    | some s =>
      if s.low ≤ b.toNat ∧ b.toNat ≤ s.high then
        let bits := s.bits * 64 + (b.toNat - 0x80)
        if s.missing = 1 then
          decodeUtf8From (position + 1) (.char (.ofNat bits) :: done) none rest
        else
          decodeUtf8From (position + 1) done
            (some ⟨bits, s.missing - 1, 0x80, 0xBF, b :: s.bytes⟩) rest
      else .error ⟨s.bytes.reverse, position - s.bytes.length, .invalidContinuation⟩

def decodeUtf8 (bytes : List UInt8) : Except Utf8Error Text :=
  decodeUtf8From 0 [] none bytes

/-- Surrogates that have no bytes, and where the first of them stands. -/
structure EncodeError where
  position : Nat
  surrogates : Text
deriving DecidableEq

namespace EncodeError

def place (e : EncodeError) : String :=
  match e.surrogates with
  | [c] => s!"character '{String.ofList (numberEscape c.toNat)}' in position {e.position}"
  | several => s!"characters in position {e.position}-{e.position + several.length - 1}"

def message (e : EncodeError) : String :=
  "'utf-8' codec can't encode " ++ e.place ++ ": surrogates not allowed"

end EncodeError

/-- The first code point without bytes, with the surrogates that follow it directly. The position is
that of the start of the text. -/
def findUnencodable? (hasBytes : CodePoint → Bool) (position : Nat) : Text → Option EncodeError
  | [] => none
  | c :: rest =>
    if hasBytes c then findUnencodable? hasBytes (position + 1) rest
    else some ⟨position, c :: rest.takeWhile CodePoint.isSurrogate⟩

def utf8Bytes : CodePoint → List UInt8
  | .char c => String.utf8EncodeChar c
  | .surrogate _ => []

def encodeUtf8 (text : Text) : Except EncodeError (List UInt8) :=
  match findUnencodable? (!·.isSurrogate) 0 text with
  | some e => .error e
  | none => .ok (text.flatMap utf8Bytes)

end Clausal.Text

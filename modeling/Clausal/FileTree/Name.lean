import Clausal.Text.Utf8

/-!
Names as bytes. Paths are kept as bytes, and two texts with the same bytes are the same path. The bytes
that are not part of a character are shown as the surrogates from U+DC80 to U+DCFF, so every
sequence of bytes can be shown.
-/
namespace Clausal.FileTree

abbrev Name := List UInt8

namespace Name

/-- A surrogate may stand for a byte from 0x80 on. -/
def ofCodePoint? : CodePoint → Option Name
  | .char c => some (String.utf8EncodeChar c)
  | .surrogate i => if 0x480 ≤ i.val ∧ i.val < 0x500 then some [(i.val - 0x400).toUInt8] else none

/-- Surrogates that stand for nothing are left out. -/
def ofText (text : Text) : Name := text.flatMap fun c => (ofCodePoint? c).getD []

/-- The character that the bytes start with, and how many of them it takes. -/
def firstChar? (bytes : List UInt8) : Option (CodePoint × Nat) :=
  [1, 2, 3, 4].findSome? fun size =>
    match Text.decodeUtf8 (bytes.take size) with
    | .ok [c] => some (c, size)
    | _ => none

/-- A byte that starts no character is shown alone, also if it looks like the start of one. -/
def toText : Name → Text
  | [] => []
  | b :: rest =>
    match firstChar? (b :: rest) with
    | some (c, size) => c :: toText (rest.drop (size - 1))
    | none => .ofNat (0xDC00 + b.toNat) :: toText rest
termination_by bytes => bytes.length
decreasing_by
  · rw [List.length_drop, List.length_cons]
    omega
  · exact Nat.lt_succ_self _

/-- The place itself. -/
def here : Name := ofText "."

/-- The place above. -/
def above : Name := ofText ".."

end Name

end Clausal.FileTree

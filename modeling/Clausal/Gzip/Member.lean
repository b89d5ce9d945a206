import Clausal.Gzip.Inflate

/-!
Compressed files. A file is a sequence of members, each a header, a deflate stream, and a checksum and
the size of what was compressed. The content of the file is that of its members, one after the other.
-/
namespace Clausal.Gzip

/-- The remainder of the cyclic redundancy check after one more bit. -/
def checksumBit (n : Nat) : Nat := if n % 2 = 1 then 0xEDB88320 ^^^ (n / 2) else n / 2

def checksum (bytes : List UInt8) : Nat :=
  bytes.foldl (fun n b => Nat.repeat checksumBit 8 (n ^^^ b.toNat)) 0xFFFFFFFF ^^^ 0xFFFFFFFF

/-- The number that bytes stand for, the least significant one first. -/
def littleEndian : List UInt8 → Nat
  | [] => 0
  | b :: rest => b.toNat + 256 * littleEndian rest

/-- What follows the first `count` bytes. -/
def skipBytes (count : Nat) (bytes : List UInt8) : Except UnpackError (List UInt8) :=
  if count ≤ bytes.length then .ok (bytes.drop count) else .error .truncated

/-- What follows a text that a zero byte closes. -/
def skipText (bytes : List UInt8) : List UInt8 := (bytes.dropWhile (· != 0)).tail

/-- What follows the fixed part of a header. The flags tell which optional parts there are: an extra
field with its length in front of it, a file name, a comment, and a checksum of the header. -/
def skipOptional (flags : UInt8) (bytes : List UInt8) : Except UnpackError (List UInt8) := do
  let has (i : Nat) : Bool := flags.toNat.testBit i
  let afterLength ← if has 2 then skipBytes 2 bytes else pure bytes
  let afterExtra ← skipBytes (if has 2 then littleEndian (bytes.take 2) else 0) afterLength
  let afterName := if has 3 then skipText afterExtra else afterExtra
  let afterComment := if has 4 then skipText afterName else afterName
  skipBytes (if has 1 then 2 else 0) afterComment

/-- What follows the header of a member. -/
def skipHeader (bytes : List UInt8) : Except UnpackError (List UInt8) :=
  match bytes with
  | 0x1F :: 0x8B :: method :: flags :: _ :: _ :: _ :: _ :: _ :: _ :: rest =>
    if method = 8 then skipOptional flags rest else .error .unknownMethod
  | 0x1F :: 0x8B :: _ => .error .truncated
  | _ => .error (.notCompressed (bytes.take 2))

/-- Holds what was read against the checksum and the size behind it; what follows them is left. -/
def checkContent (content rest : List UInt8) : Except UnpackError (List UInt8) := do
  let left ← skipBytes 8 rest
  let stored := littleEndian (rest.take 4)
  if stored != checksum content then throw (.checksum stored (checksum content))
  if littleEndian ((rest.drop 4).take 4) != content.length % 0x100000000 then throw .contentSize
  return left

/-- A stream that ends too early is a file that ends too early. -/
def streamError : StreamFault → UnpackError
  | .truncated => .truncated
  | fault => .stream fault

/-- The content of the first member, and the bytes behind it. -/
def readMember (bytes : List UInt8) : Except UnpackError (List UInt8 × List UInt8) := do
  let (content, rest) ← (inflate (← skipHeader bytes)).mapError streamError
  return (content, ← checkContent content rest)

/-- Reads at most `count` members. Zero bytes behind a member are skipped. -/
def readMembers : Nat → List UInt8 → Except UnpackError (List UInt8)
  | 0, _ => .error .truncated
  | count + 1, bytes =>
    match readMember bytes with
    | .error e => .error e
    | .ok (content, rest) =>
      match rest.dropWhile (· == 0) with
      | [] => .ok content
      | more => (readMembers count more).map (content ++ ·)

/-- The content of a compressed file. An empty file has no members. -/
def unpack (bytes : List UInt8) : Except UnpackError (List UInt8) :=
  if bytes.isEmpty then .ok [] else readMembers bytes.length bytes

end Clausal.Gzip

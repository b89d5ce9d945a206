import Clausal.Gzip.Error

/-!
Bits of a byte sequence, read from the least significant bit of each byte on. Every bit that is read
makes what is left smaller, which is what the loops of the decoder end by.
-/
namespace Clausal.Gzip

/-- The bytes that are left, of the first of which `offset` bits have been read. -/
structure BitReader where
  bytes : List UInt8
  offset : Fin 8

namespace BitReader

def ofBytes (bytes : List UInt8) : BitReader := ⟨bytes, 0⟩

/-- The number of bits that are left. -/
def size (r : BitReader) : Nat := 8 * r.bytes.length - r.offset

def next (r : BitReader) : Except StreamFault (Bool × BitReader) :=
  match r.bytes with
  | [] => .error .truncated
  | b :: rest =>
    let bit := b.toNat.testBit r.offset
    if r.offset = 7 then .ok (bit, ⟨rest, 0⟩) else .ok (bit, ⟨b :: rest, r.offset + 1⟩)

/-- A number of `n` bits, the least significant one first. -/
def take : Nat → BitReader → Except StreamFault (Nat × BitReader)
  | 0, r => .ok (0, r)
  | n + 1, r =>
    match r.next with
    | .error e => .error e
    | .ok (bit, r) =>
      match take n r with
      | .error e => .error e
      | .ok (high, r) => .ok (2 * high + bit.toNat, r)

/-- Skips what is left of a byte of which some bits have been read. -/
def align (r : BitReader) : BitReader := if r.offset = 0 then r else ⟨r.bytes.tail, 0⟩

/-- The next `n` bytes. Nothing may have been read of the first one. -/
def takeBytes (n : Nat) (r : BitReader) : Except StreamFault (List UInt8 × BitReader) :=
  if n ≤ r.bytes.length then .ok (r.bytes.take n, ⟨r.bytes.drop n, r.offset⟩)
  else .error .truncated

theorem offset_add_one {offset : Fin 8} (h : offset ≠ 7) : (offset + 1).val = offset.val + 1 := by
  revert offset
  decide

theorem size_of_next {r s : BitReader} {bit : Bool} (h : r.next = .ok (bit, s)) :
    s.size < r.size := by
  obtain ⟨bytes, offset⟩ := r
  rw [next] at h
  split at h
  · cases h
  · rename_i b rest same
    dsimp only at same h
    subst same
    have room := offset.isLt
    split at h
    · cases h
      simp only [size, List.length_cons, Fin.val_zero]
      omega
    · rename_i notLast
      cases h
      have next := offset_add_one notLast
      simp only [size, List.length_cons, next]
      omega

theorem size_of_take {n value : Nat} {r s : BitReader} (h : r.take n = .ok (value, s)) :
    s.size ≤ r.size := by
  induction n generalizing r value with
  | zero => cases h; exact Nat.le_refl _
  | succ n ih =>
    rw [take] at h
    split at h
    · cases h
    · rename_i first
      split at h
      · cases h
      · rename_i others
        cases h
        exact Nat.le_of_lt (Nat.lt_of_le_of_lt (ih others) (size_of_next first))

end BitReader

end Clausal.Gzip

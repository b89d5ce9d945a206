import Clausal.Gzip.BitReader

/-!
Prefix codes. A code is the binary tree whose leaves are the symbols. It is determined by the lengths
of the code words alone: words of equal length are consecutive numbers in the order of their symbols,
and shorter words come before longer ones. In a complete code every sequence of bits starts with a
code word.
-/
namespace Clausal.Gzip

inductive PrefixCode where
  | empty
  | leaf (symbol : Nat)
  | node (zero one : PrefixCode)

namespace PrefixCode

/-- Hangs a symbol into the tree below a path of bits. -/
def insert (symbol : Nat) : List Bool → PrefixCode → PrefixCode
  | [], _ => .leaf symbol
  | bit :: path, code =>
    let (zero, one) := match code with
      | .node zero one => (zero, one)
      | _ => (.empty, .empty)
    if bit then .node zero (insert symbol path one) else .node (insert symbol path zero) one

/-- The code word with the given number, its most significant bit first. -/
def wordBits (length word : Nat) : List Bool :=
  ((List.range length).map word.testBit).reverse

/-- The symbols are the positions in the list; one of length 0 has no code word. A code without any
words still takes a bit to find that out. -/
def ofLengths (lengths : List Nat) : PrefixCode :=
  let longest := lengths.foldl max 0
  let (code, _) := (List.range' 1 longest).foldl
    (fun (state : PrefixCode × Nat) length =>
      let symbols := (lengths.zipIdx.filter fun (n, _) => n == length).map Prod.snd
      let (code, word) := symbols.foldl
        (fun (code, word) symbol => (insert symbol (wordBits length word) code, word + 1)) state
      (code, 2 * word))
    (.node .empty .empty, 0)
  code

/-- How much of all sequences of bits starts with a code word, in units of the longest words. -/
def coverage (lengths : List Nat) : Nat :=
  (lengths.filter (0 < ·)).foldl (fun n length => n + (1 <<< (15 - length))) 0

def fullCoverage : Nat := 0x8000

def isComplete (lengths : List Nat) : Bool := coverage lengths == fullCoverage

/-- A code may also consist of one word of one bit, or of no word at all. -/
def isUsable (lengths : List Nat) : Bool :=
  isComplete lengths || lengths.all (· == 0) ||
    (coverage lengths < fullCoverage && lengths.all (· ≤ 1))

/-- Goes down the tree bit by bit until a leaf is reached. The fault is that of leaving the tree. -/
def follow (fault : StreamFault) : PrefixCode → BitReader → Except StreamFault (Nat × BitReader)
  | .empty, _ => .error fault
  | .leaf symbol, r => .ok (symbol, r)
  | .node zero one, r =>
    match r.next with
    | .error e => .error e
    | .ok (true, r) => one.follow fault r
    | .ok (false, r) => zero.follow fault r

/-- The symbol whose code word comes next. Every code word has at least one bit. -/
def decode (code : PrefixCode) (fault : StreamFault) (r : BitReader) :
    Except StreamFault (Nat × BitReader) :=
  match code with
  | .node _ _ => code.follow fault r
  | _ => .error fault

theorem size_of_follow {code : PrefixCode} {fault : StreamFault} {r s : BitReader} {symbol : Nat}
    (h : code.follow fault r = .ok (symbol, s)) : s.size ≤ r.size := by
  induction code generalizing r with
  | empty => cases h
  | leaf _ => cases h; exact Nat.le_refl _
  | node zero one ihZero ihOne =>
    rw [follow] at h
    split at h
    · cases h
    · rename_i bit
      exact Nat.le_of_lt (Nat.lt_of_le_of_lt (ihOne h) (BitReader.size_of_next bit))
    · rename_i bit
      exact Nat.le_of_lt (Nat.lt_of_le_of_lt (ihZero h) (BitReader.size_of_next bit))

theorem size_of_decode {code : PrefixCode} {fault : StreamFault} {r s : BitReader} {symbol : Nat}
    (h : code.decode fault r = .ok (symbol, s)) : s.size < r.size := by
  cases code with
  | empty => cases h
  | leaf _ => cases h
  | node zero one =>
    simp only [decode, follow] at h
    split at h
    · cases h
    · rename_i bit
      exact Nat.lt_of_le_of_lt (size_of_follow h) (BitReader.size_of_next bit)
    · rename_i bit
      exact Nat.lt_of_le_of_lt (size_of_follow h) (BitReader.size_of_next bit)

end PrefixCode

end Clausal.Gzip

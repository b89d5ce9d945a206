import Clausal.Gzip.PrefixCode

/-!
Deflate streams. A stream is a sequence of blocks that extend one output. A block holds bytes as they
are, or symbols of two prefix codes, each of which stands for a byte, for the end of the block, or
for the repetition of earlier output. A stream that breaks these rules has no output.
-/
namespace Clausal.Gzip

/-- Stretches of consecutive numbers, one for each symbol: the first number of the stretch, and how
many bits behind the symbol tell its numbers apart. -/
def stretches (first : Nat) : List Nat → List (Nat × Nat)
  | [] => []
  | bits :: rest => (first, bits) :: stretches (first + (1 <<< bits)) rest

/-- How long a repetition is; the greatest length has a symbol of its own. -/
def lengthStretches : List (Nat × Nat) :=
  stretches 3 (List.replicate 8 0 ++ [1, 2, 3, 4, 5].flatMap (List.replicate 4)) ++ [(258, 0)]

/-- How far back a repetition starts. -/
def distanceStretches : List (Nat × Nat) :=
  stretches 1 (List.replicate 4 0 ++ (List.range' 1 13).flatMap (List.replicate 2))

/-- The fault is that of a symbol without a stretch. -/
def readStretch (table : List (Nat × Nat)) (fault : StreamFault) (symbol : Nat) (r : BitReader) :
    Except StreamFault (Nat × BitReader) :=
  match table[symbol]? with
  | none => .error fault
  | some (first, bits) =>
    match r.take bits with
    | .error e => .error e
    | .ok (n, r) => .ok (first + n, r)

/-- What a symbol of a block stands for. A repetition names the stretch that its length is in. -/
inductive BlockSymbol where
  | byte (value : UInt8)
  | stop
  | repetition (length : Nat)

@[irreducible] def BlockSymbol.ofNat (n : Nat) : BlockSymbol :=
  if n < 256 then .byte n.toUInt8 else if n = 256 then .stop else .repetition (n - 257)

/-- Repeats output byte by byte, so a repetition may reach into itself. -/
def repeatOutput (distance : Nat) : Nat → Array UInt8 → Array UInt8
  | 0, out => out
  | n + 1, out => repeatOutput distance n (out.push (out.getD (out.size - distance) 0))

/-- A code for bytes, the end of the block and lengths, and a code for distances. -/
structure BlockCodes where
  literals : PrefixCode
  distances : PrefixCode

namespace BlockCodes

/-- A repetition whose length is in the given stretch. -/
def readRepetition (codes : BlockCodes) (out : Array UInt8) (stretch : Nat) (r : BitReader) :
    Except StreamFault (Array UInt8 × BitReader) :=
  match readStretch lengthStretches .literalWord stretch r with
  | .error e => .error e
  | .ok (length, r) =>
    match codes.distances.decode .distanceWord r with
    | .error e => .error e
    | .ok (symbol, r) =>
      match readStretch distanceStretches .distanceWord symbol r with
      | .error e => .error e
      | .ok (distance, r) =>
        if distance ≤ out.size then .ok (repeatOutput distance length out, r)
        else .error .farDistance

end BlockCodes

theorem size_of_readStretch {table : List (Nat × Nat)} {fault : StreamFault} {symbol n : Nat}
    {r s : BitReader} (h : readStretch table fault symbol r = .ok (n, s)) : s.size ≤ r.size := by
  rw [readStretch] at h
  split at h
  · cases h
  · split at h
    · cases h
    · rename_i taken
      cases h
      exact BitReader.size_of_take taken

namespace BlockCodes

theorem size_of_readRepetition {codes : BlockCodes} {out more : Array UInt8} {stretch : Nat}
    {r s : BitReader} (h : codes.readRepetition out stretch r = .ok (more, s)) :
    s.size ≤ r.size := by
  rw [readRepetition] at h
  split at h
  · cases h
  · rename_i length
    split at h
    · cases h
    · rename_i decoded
      split at h
      · cases h
      · rename_i distance
        split at h
        · cases h
          have := size_of_readStretch length
          have := PrefixCode.size_of_decode decoded
          have := size_of_readStretch distance
          omega
        · cases h

/-- Reads symbols up to the end of the block. -/
def readSymbols (codes : BlockCodes) (out : Array UInt8) (r : BitReader) :
    Except StreamFault (Array UInt8 × BitReader) :=
  match _decoded : codes.literals.decode .literalWord r with
  | .error e => .error e
  | .ok (symbol, s) =>
    match BlockSymbol.ofNat symbol with
    | .byte b => codes.readSymbols (out.push b) s
    | .stop => .ok (out, s)
    | .repetition stretch =>
      match _repeated : codes.readRepetition out stretch s with
      | .error e => .error e
      | .ok (out, s) => codes.readSymbols out s
termination_by r.size
decreasing_by
  · exact PrefixCode.size_of_decode _decoded
  · exact Nat.lt_of_le_of_lt (size_of_readRepetition _repeated) (PrefixCode.size_of_decode _decoded)

/-- The codes of blocks that do not bring their own. Some of their words stand for nothing. -/
def fixed : BlockCodes where
  literals := .ofLengths
    (List.replicate 144 8 ++ List.replicate 112 9 ++ List.replicate 24 7 ++ List.replicate 8 8)
  distances := .ofLengths (List.replicate 32 5)

end BlockCodes

/-- The code for lengths. Without any words in it, every bit is the length 0. -/
def lengthCode? (lengths : List Nat) : Option PrefixCode :=
  if lengths.all (· == 0) then some (.node (.leaf 0) (.leaf 0))
  else if PrefixCode.isComplete lengths then some (.ofLengths lengths)
  else none

/-- Code word lengths that one symbol of the code for lengths stands for: itself, or a repetition of
the latest length or of 0. -/
def readLengthRun (done : List Nat) (symbol : Nat) (r : BitReader) :
    Except StreamFault (List Nat × BitReader) :=
  let run (length shortest bits : Nat) : Except StreamFault (List Nat × BitReader) :=
    match r.take bits with
    | .error e => .error e
    | .ok (n, r) => .ok (List.replicate (shortest + n) length, r)
  match symbol, done with
  | 16, [] => (r.take 2).bind fun _ => .error .lengthRun
  | 16, latest :: _ => run latest 3 2
  | 17, _ => run 0 3 3
  | 18, _ => run 0 11 7
  | symbol, _ => .ok ([symbol], r)

theorem size_of_readLengthRun {done lengths : List Nat} {symbol : Nat} {r s : BitReader}
    (h : readLengthRun done symbol r = .ok (lengths, s)) : s.size ≤ r.size := by
  have run {length shortest bits : Nat}
      (h : (match r.take bits with
        | .error e => .error e
        | .ok (n, r) => .ok (List.replicate (shortest + n) length, r)) =
          (.ok (lengths, s) : Except StreamFault (List Nat × BitReader))) :
      s.size ≤ r.size := by
    split at h
    · cases h
    · rename_i taken
      cases h
      exact BitReader.size_of_take taken
  simp only [readLengthRun] at h
  split at h
  · cases taken : r.take 2 with
    | error _ => rw [taken] at h; cases h
    | ok _ => rw [taken] at h; cases h
  · exact run h
  · exact run h
  · exact run h
  · cases h
    exact Nat.le_refl _

/-- Reads `count` code word lengths; those read so far are kept with the latest first. A run must not
reach beyond the last one. -/
def readLengths (code : PrefixCode) (count : Nat) (done : List Nat) (r : BitReader) :
    Except StreamFault (List Nat × BitReader) :=
  if count = done.length then .ok (done.reverse, r)
  else if count < done.length then .error .lengthRun
  else
    match _decoded : code.decode .lengthCode r with
    | .error e => .error e
    | .ok (symbol, s) =>
      match _found : readLengthRun done symbol s with
      | .error e => .error e
      | .ok (lengths, s) => readLengths code count (lengths ++ done) s
termination_by r.size
decreasing_by
  exact Nat.lt_of_le_of_lt (size_of_readLengthRun _found) (PrefixCode.size_of_decode _decoded)

/-- The order in which a block gives the code word lengths of the code for lengths. -/
def lengthOrder : List Nat := [16, 17, 18, 0, 8, 7, 9, 6, 10, 5, 11, 4, 12, 3, 13, 2, 14, 1, 15]

/-- Numbers of three bits, one for each symbol. -/
def readShortLengths : List Nat → BitReader → Except StreamFault (List (Nat × Nat) × BitReader)
  | [], r => .ok ([], r)
  | symbol :: rest, r =>
    match r.take 3 with
    | .error e => .error e
    | .ok (length, r) =>
      match readShortLengths rest r with
      | .error e => .error e
      | .ok (lengths, r) => .ok ((symbol, length) :: lengths, r)

/-- The codes with the given word lengths. Without a word for its end no block could end. -/
def BlockCodes.ofLengths (literals distances : List Nat) : Except StreamFault BlockCodes :=
  if literals[256]?.getD 0 = 0 then .error .noBlockEnd
  else if !PrefixCode.isUsable literals then .error .literalCode
  else if !PrefixCode.isUsable distances then .error .distanceCode
  else .ok ⟨.ofLengths literals, .ofLengths distances⟩

/-- The codes that a block brings along. Their lengths are themselves written in a code. -/
def readCodes (r : BitReader) : Except StreamFault (BlockCodes × BitReader) := do
  let (literals, r) ← r.take 5
  let (distances, r) ← r.take 5
  let (given, r) ← r.take 4
  if 286 < literals + 257 || 30 < distances + 1 then throw .tooManySymbols
  let (short, r) ← readShortLengths (lengthOrder.take (given + 4)) r
  let shortLengths := (List.range 19).map fun symbol => (short.lookup symbol).getD 0
  let some code := lengthCode? shortLengths | throw .lengthCode
  let (lengths, r) ← readLengths code (literals + distances + 258) [] r
  let (own, others) := lengths.splitAt (literals + 257)
  let codes ← BlockCodes.ofLengths own others
  return (codes, r)

/-- Bytes as they are, from a full byte on; their number is given twice, once with all bits flipped. -/
def readStored (out : Array UInt8) (r : BitReader) :
    Except StreamFault (Array UInt8 × BitReader) := do
  let (length, r) ← r.align.take 16
  let (flipped, r) ← r.take 16
  if length + flipped != 0xFFFF then throw .storedLength
  let (bytes, r) ← r.takeBytes length
  return (out ++ bytes.toArray, r)

/-- One block, and whether it is the last one. -/
def readBlock (out : Array UInt8) (r : BitReader) :
    Except StreamFault (Bool × Array UInt8 × BitReader) := do
  let (last, r) ← r.take 1
  let (kind, r) ← r.take 2
  let (out, r) ← match kind with
    | 0 => readStored out r
    | 1 => BlockCodes.fixed.readSymbols out r
    | 2 => (readCodes r).bind fun (codes, r) => codes.readSymbols out r
    | _ => .error .blockKind
  return (last == 1, out, r)

/-- Reads at most `count` blocks. -/
def readBlocks : Nat → Array UInt8 → BitReader → Except StreamFault (Array UInt8 × BitReader)
  | 0, _, _ => .error .truncated
  | count + 1, out, r =>
    match readBlock out r with
    | .error e => .error e
    | .ok (true, out, r) => .ok (out, r)
    | .ok (false, out, r) => readBlocks count out r

/-- The output of the stream at the start of the bytes, and the bytes behind the stream. No block is
shorter than three bits, so a stream has fewer blocks than bits. -/
def inflate (bytes : List UInt8) : Except StreamFault (List UInt8 × List UInt8) :=
  let r := BitReader.ofBytes bytes
  (readBlocks (r.size + 1) #[] r).map fun (out, r) => (out.toList, r.align.bytes)

end Clausal.Gzip

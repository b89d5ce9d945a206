import Clausal.Text.Quoted

/-!
What can be wrong with a compressed file. A deflate stream may end too early or break one of its own
rules; around the streams, the headers and the checks behind each member can be wrong.
-/
namespace Clausal.Gzip

inductive StreamFault where
  | truncated
  | blockKind
  | storedLength
  | tooManySymbols
  | lengthCode
  | lengthRun
  | noBlockEnd
  | literalCode
  | distanceCode
  | literalWord
  | distanceWord
  | farDistance
deriving DecidableEq

/-- What the decoder says about a stream. -/
def StreamFault.reason : StreamFault → String
  | .truncated => "incomplete or truncated stream"
  | .blockKind => "invalid block type"
  | .storedLength => "invalid stored block lengths"
  | .tooManySymbols => "too many length or distance symbols"
  | .lengthCode => "invalid code lengths set"
  | .lengthRun => "invalid bit length repeat"
  | .noBlockEnd => "invalid code -- missing end-of-block"
  | .literalCode => "invalid literal/lengths set"
  | .distanceCode => "invalid distances set"
  | .literalWord => "invalid literal/length code"
  | .distanceWord => "invalid distance code"
  | .farDistance => "invalid distance too far back"

/-- A checksum and a size are kept behind each member. -/
inductive UnpackError where
  | notCompressed (start : List UInt8)
  | unknownMethod
  | truncated
  | stream (fault : StreamFault)
  | checksum (stored computed : Nat)
  | contentSize

namespace UnpackError

def hexadecimal (n : Nat) : String := "0x" ++ String.ofList (Nat.toDigits 16 n)

def message : UnpackError → String
  | .notCompressed start => s!"Not a gzipped file ({Text.quotedBytes start})"
  | .unknownMethod => "Unknown compression method"
  | .truncated => "Compressed file ended before the end-of-stream marker was reached"
  | .stream fault => "Error -3 while decompressing data: " ++ fault.reason
  | .checksum stored computed =>
    s!"CRC check failed {hexadecimal stored} != {hexadecimal computed}"
  | .contentSize => "Incorrect length of data produced"

end UnpackError

end Clausal.Gzip

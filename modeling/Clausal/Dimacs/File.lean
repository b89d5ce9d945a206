import Clausal.Dimacs.Parser
import Clausal.FileTree
import Clausal.Gzip.Member

/-!
Loading DIMACS files. A name that ends in `.gz` promises a compressed file. Texts are UTF-8 without
a byte order mark, and each kind of line end that has a carriage return in it reads as a line feed.
-/
namespace Clausal

inductive LoadError where
  | badPath (error : PathError)
  | isDirectory (path : Text)
  | damaged (error : Gzip.UnpackError)
  | undecodable (error : Text.Utf8Error)
  | malformed (error : DimacsError)

namespace PathError

def message : PathError → String
  | .unencodable e => e.message
  | .embeddedNul => "embedded null byte"
  | .tooLong path => s!"[Errno 36] File name too long: {Text.quoted path}"
  | .missing path => s!"[Errno 2] No such file or directory: {Text.quoted path}"
  | .notDirectory path => s!"[Errno 20] Not a directory: {Text.quoted path}"

end PathError

/-- What is no compressed file, or one with wrong figures in it, is reported; a file that breaks off
and a stream without a meaning are not. -/
def Gzip.UnpackError.isReported : Gzip.UnpackError → Bool
  | .truncated => false
  | .stream _ => false
  | _ => true

namespace LoadError

def message : LoadError → String
  | .badPath e => e.message
  | .isDirectory path => s!"[Errno 21] Is a directory: {Text.quoted path}"
  | .damaged e => e.message
  | .undecodable e => e.message
  | .malformed e => e.message

/-- A path that cannot be the path of any file is the caller's mistake. Nearly everything else is a
property of the file and is reported with it. -/
def isReported : LoadError → Bool
  | .badPath e => !e.isImproper
  | .damaged e => e.isReported
  | _ => true

end LoadError

namespace Dimacs

/-- The first bytes of every compressed file. -/
def compressedMark : List UInt8 := [0x1F, 0x8B]

def isCompressedName (path : Text) : Bool := (Text.ofString ".gz").isSuffixOf path

/-- The bytes of the text in a file. Of a compressed file that is read as it is only the first bytes
matter, since they are not UTF-8. -/
def textBytes (path : Text) (content : List UInt8) (compressed : Bool) :
    Except LoadError (List UInt8) :=
  if isCompressedName path then
    if compressed then .ok content else (Gzip.unpack content).mapError .damaged
  else .ok (if compressed then compressedMark else content)

def readText (files : FileTree) (path : Text) : Except LoadError Text :=
  match files.resolve path with
  | .error e => .error (.badPath e)
  | .ok .directory => .error (.isDirectory path)
  | .ok (.file content compressed) =>
    match textBytes path content compressed with
    | .error e => .error e
    | .ok bytes =>
      match Text.decodeUtf8 bytes with
      | .error e => .error (.undecodable e)
      | .ok text => .ok (Text.normalizeNewlines text)

def load (files : FileTree) (path : Text) : Except LoadError Formula :=
  match readText files path with
  | .error e => .error e
  | .ok text => (parse text).mapError .malformed

/-- What a talkative run reports about loading the file. -/
def loadLog (files : FileTree) (path : Text) : List String :=
  match readText files path with
  | .error _ => []
  | .ok text => parseLog text

end Dimacs

end Clausal

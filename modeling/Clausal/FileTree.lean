import Clausal.FileTree.Name

/-!
Files and directories by path. A path is walked name by name from the root of the tree: an empty
name and a single dot stay in place, two dots go up, and every step needs a directory to start from.
The number of bytes in a path, and in a name, is limited.
-/
namespace Clausal

/-- A compressed file is known by its uncompressed content. -/
inductive FileNode where
  | directory
  | file (content : List UInt8) (compressed : Bool)

/-- Where paths start: some levels above the root of the tree, or at the one place where all paths with
a slash in front start. -/
inductive Origin where
  | level (up : Nat)
  | slash
deriving DecidableEq

/-- The names that lead to a place, the latest one first. -/
structure Place where
  origin : Origin
  names : List FileTree.Name
deriving DecidableEq

namespace Place

/-- Above the root of the tree there are other directories, but nothing is above the place where
paths with a slash start. -/
def parent (p : Place) : Place :=
  match p.names, p.origin with
  | _ :: rest, _ => { p with names := rest }
  | [], .level up => ⟨.level (up + 1), []⟩
  | [], .slash => p

/-- Where one more name of a path leads. -/
def descend (p : Place) (name : FileTree.Name) : Place :=
  if name = [] ∨ name = .here then p
  else if name = .above then p.parent
  else { p with names := name :: p.names }

/-- The places that a sequence of names leads through, without the last one. -/
def way (p : Place) : List FileTree.Name → List Place
  | [] => []
  | name :: rest => p :: (p.descend name).way rest

/-- The name under which the first place is found in the second one. -/
def nameIn? (p q : Place) : Option FileTree.Name :=
  match p.names with
  | name :: rest => if p.origin = q.origin ∧ rest = q.names then some name else none
  | [] => none

end Place

/-- The nodes that were created, the newest first. -/
structure FileTree where
  nodes : List (Place × FileNode) := []

/-- Why a path leads nowhere. -/
inductive PathError where
  | unencodable (error : Text.EncodeError)
  | embeddedNul
  | tooLong (path : Text)
  | missing (path : Text)
  | notDirectory (path : Text)

/-- Whether the path cannot be the path of any file. -/
def PathError.isImproper : PathError → Bool
  | .unencodable _ => true
  | .embeddedNul => true
  | _ => false

namespace FileTree

def maxNameSize : Nat := 255

def maxPathSize : Nat := 4095

/-- What keeps a path from being the path of any file. -/
def impropriety? (path : Text) : Option PathError :=
  match Text.findUnencodable? (fun c => (Name.ofCodePoint? c).isSome) 0 path with
  | some e => some (.unencodable e)
  | none => if path.contains (.char '\x00') then some .embeddedNul else none

/-- The bytes between the slashes. -/
def names (path : Text) : List Name := (path.splitOn (.char '/')).map Name.ofText

def start (path : Text) : Place :=
  if path.head? == some (.char '/') then ⟨.slash, []⟩ else ⟨.level 0, []⟩

/-- Where the path leads, provided that it can be walked. -/
def place (path : Text) : Place := (names path).foldl Place.descend (start path)

/-- Creates a node, and every directory that the path leads through. -/
def create (t : FileTree) (path : Text) (node : FileNode) : FileTree :=
  ⟨(place path, node) :: ((start path).way (names path)).map (·, .directory) ++ t.nodes⟩

/-- What stands at a place. The places where paths start are directories from the beginning. -/
def find? (t : FileTree) (p : Place) : Option FileNode :=
  if p.names.isEmpty then some .directory else t.nodes.lookup p

/-- Walks on from a directory or file. -/
def walk (t : FileTree) (path : Text) (p : Place) (node : FileNode) :
    List Name → Except PathError FileNode
  | [] => .ok node
  | name :: rest =>
    match node with
    | .file _ _ => .error (.notDirectory path)
    | .directory =>
      if maxNameSize < name.length then .error (.tooLong path)
      else
        match t.find? (p.descend name) with
        | none => .error (.missing path)
        | some next => t.walk path (p.descend name) next rest

/-- The empty path leads nowhere. -/
def resolve (t : FileTree) (path : Text) : Except PathError FileNode :=
  match impropriety? path with
  | some e => .error e
  | none =>
    if path = [] then .error (.missing path)
    else if maxPathSize < (Name.ofText path).length then .error (.tooLong path)
    else t.walk path (start path) .directory (names path)

/-- Whether the path leads to anything. -/
def pathExists (t : FileTree) (path : Text) : Bool := (t.resolve path).isOk

def isDirectoryNode : FileNode → Bool
  | .directory => true
  | .file _ _ => false

def isDirectory (t : FileTree) (path : Text) : Bool :=
  match t.resolve path with
  | .ok node => isDirectoryNode node
  | .error _ => false

/-- The names in a directory, each once, and whether they are those of directories. Only a path
that cannot be the path of any file is an error; nothing is in what is not a directory. -/
def list (t : FileTree) (path : Text) : Except PathError (List (Text × Bool)) :=
  match t.resolve path with
  | .ok .directory =>
    let here := place path
    let names := (t.nodes.filterMap fun node => node.1.nameIn? here).eraseDups
    .ok (names.map fun name =>
      (name.toText, ((t.find? (here.descend name)).map isDirectoryNode).getD false))
  | .ok (.file _ _) => .ok []
  | .error e => if e.isImproper then .error e else .ok []

end FileTree

end Clausal

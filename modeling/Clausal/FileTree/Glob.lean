import Clausal.FileTree
import Clausal.Text.Pattern

/-!
Finding paths by pattern. A pattern is matched part by part against the names in a file tree; parts
without special characters only have to exist. Two stars are one star: no part reaches across a
slash. Names that start with a dot are only found by a part that starts with one.
-/
namespace Clausal.FileTree

/-- Everything up to the last slash, and what follows it. Slashes at the end of the first part are
dropped unless it consists of nothing else. -/
def splitPath (path : Text) : Text × Text :=
  let base := (path.reverse.takeWhile (· != .char '/')).reverse
  let head := path.take (path.length - base.length)
  let trimmed := (head.reverse.dropWhile (· == .char '/')).reverse
  (if trimmed.isEmpty then head else trimmed, base)

/-- A path below a directory. A path that starts with a slash replaces it. -/
def joinPath (dir path : Text) : Text :=
  if path.head? == some (.char '/') || dir.isEmpty then path
  else if dir.getLast? == some (.char '/') then dir ++ path
  else dir ++ .char '/' :: path

def isHidden (name : Text) : Bool := name.head? == some (.char '.')

/-- The names in a directory that match a part; the empty path is the root of the tree. -/
def matchNames (t : FileTree) (dir part : Text) (directoriesOnly : Bool) :
    Except PathError (List Text) :=
  match t.list (if dir.isEmpty then "." else dir) with
  | .error e => .error e
  | .ok names =>
    .ok ((names.filter fun (name, isDirectory) =>
      (!directoriesOnly || isDirectory) && (isHidden part || !isHidden name) &&
        Text.matchesPattern part name).map Prod.fst)

/-- The path itself if a last part without special characters is there. An empty last part asks
for a directory. -/
def matchLiteral (t : FileTree) (dir part : Text) : List Text :=
  let found := if part.isEmpty then t.isDirectory dir else t.pathExists (joinPath dir part)
  if found then [part] else []

/-- The paths in a directory that match a last part. -/
def matchPart (t : FileTree) (part : Text) (directoriesOnly : Bool) (dir : Text) :
    Except PathError (List Text) :=
  if Text.isPattern part then
    (t.matchNames dir part directoriesOnly).map (·.map (joinPath dir))
  else .ok ((t.matchLiteral dir part).map (joinPath dir))

/-- The paths that match, in no particular order. A directory has to be listed under a path that can
be the path of a file; that is the one thing that can fail. -/
def glob (t : FileTree) (pattern : Text) (directoriesOnly : Bool) :
    Except PathError (List Text) :=
  let (dir, part) := splitPath pattern
  if !Text.isPattern pattern then
    let found := if part.isEmpty then t.isDirectory dir else t.pathExists pattern
    .ok (if found then [pattern] else [])
  else if dir.isEmpty then t.matchNames [] part directoriesOnly
  else
    let dirs :=
      if _shorter : dir.length < pattern.length then
        if Text.isPattern dir then t.glob dir true else .ok [dir]
      else .ok [dir]
    match dirs with
    | .error e => .error e
    | .ok dirs => (dirs.mapM (t.matchPart part directoriesOnly)).map List.flatten
termination_by pattern.length

end Clausal.FileTree

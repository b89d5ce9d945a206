import Clausal.Text.CodePoint

/-!
Wildcard patterns for names. A star stands for any text, a question mark for one code point, and
brackets for one code point of a class; an opening bracket that is never closed, and a backslash, stand
for themselves. Upper and lower case differ. A pattern is matched item by item from its end, against
all suffixes of the text at once, so the work is the product of the two lengths.
-/
namespace Clausal.Text

/-- A part of a class. A range may have just one element and is a range nevertheless. -/
inductive ClassPart where
  | single (c : CodePoint)
  | range (first last : CodePoint)

namespace ClassPart

def contains (part : ClassPart) (c : CodePoint) : Bool :=
  match part with
  | .single d => c == d
  | .range first last => first.toNat ≤ c.toNat && c.toNat ≤ last.toNat

/-- Two code points around a hyphen are a range; any other hyphen stands for itself. A range whose
ends are in the wrong order is dropped. -/
def read : Text → List ClassPart
  | first :: .char '-' :: last :: rest =>
    if first.toNat ≤ last.toNat then .range first last :: read rest else read rest
  | c :: rest => .single c :: read rest
  | [] => []

end ClassPart

inductive PatternItem where
  | literal (c : CodePoint)
  | anyOne
  | anyText
  | oneOf (parts : List ClassPart)
  | noneOf (parts : List ClassPart)

namespace PatternItem

/-- A class is negated by an exclamation mark at its start, also by one that only comes to stand
there because the ranges before it were dropped. If that one starts a range, the range is lost, and
its hyphen and its end stand for themselves. -/
def ofClass (body : Text) : PatternItem :=
  match body with
  | .char '!' :: rest => .noneOf (ClassPart.read rest)
  | _ =>
    match ClassPart.read body with
    | .single (.char '!') :: parts => .noneOf parts
    | .range (.char '!') last :: parts => .noneOf (.single '-' :: .single last :: parts)
    | parts => .oneOf parts

def accepts (item : PatternItem) (c : CodePoint) : Bool :=
  match item with
  | .literal d => c == d
  | .anyOne => true
  | .anyText => true
  | .oneOf parts => parts.any (·.contains c)
  | .noneOf parts => !parts.any (·.contains c)

end PatternItem

/-- How many code points at the start of a class cannot close it: a bracket directly there, or after
an exclamation mark, belongs to the class. -/
def classHead : Text → Nat
  | .char '!' :: .char ']' :: _ => 2
  | .char '!' :: _ => 1
  | .char ']' :: _ => 1
  | _ => 0

/-- The body of the class that starts here and what follows its closing bracket. -/
def splitClass? (text : Text) : Option (Text × Text) :=
  let tail := text.drop (classHead text)
  match tail.dropWhile (· != .char ']') with
  | _ :: rest => some (text.take (classHead text) ++ tail.takeWhile (· != .char ']'), rest)
  | [] => none

theorem length_of_splitClass? {text body rest : Text}
    (h : splitClass? text = some (body, rest)) : rest.length < text.length := by
  rw [splitClass?] at h
  split at h
  · rename_i c tail found
    cases h
    have bound :=
      (List.dropWhile_sublist (fun c => c != .char ']') (l := text.drop (classHead text))).length_le
    rw [found, List.length_drop, List.length_cons] at bound
    omega
  · cases h

def readPattern : Text → List PatternItem
  | [] => []
  | .char '*' :: rest => .anyText :: readPattern rest
  | .char '?' :: rest => .anyOne :: readPattern rest
  | .char '[' :: rest =>
    match _split : splitClass? rest with
    | some (body, after) => PatternItem.ofClass body :: readPattern after
    | none => .literal '[' :: readPattern rest
  | c :: rest => .literal c :: readPattern rest
termination_by text => text.length
decreasing_by
  all_goals simp only [List.length_cons]
  · omega
  · omega
  · have := length_of_splitClass? _split
    omega
  · omega
  · omega

/-- For each suffix of a list, the whole list first, whether any suffix of that one is marked. -/
def anyLater : List Bool → List Bool
  | [] => []
  | mark :: rest =>
    match anyLater rest with
    | [] => [mark]
    | later :: more => (mark || later) :: later :: more

/-- Which suffixes of the text match an item and what follows it, given which of them match what
follows it. The whole text comes first and the empty suffix last. -/
def matchItem (text : Text) (item : PatternItem) (later : List Bool) : List Bool :=
  match item with
  | .anyText => anyLater later
  | _ => (text.zipWith (fun c rest => item.accepts c && rest) later.tail) ++ [false]

def matchesItems (items : List PatternItem) (text : Text) : Bool :=
  let empty := List.replicate text.length false ++ [true]
  ((items.foldr (matchItem text) empty).head?).getD false

def matchesPattern (pattern text : Text) : Bool := matchesItems (readPattern pattern) text

/-- Whether anything in the text is special in a pattern. -/
def isPattern (text : Text) : Bool := text.any fun c => c == .char '*' || c == .char '?' || c == .char '['

end Clausal.Text

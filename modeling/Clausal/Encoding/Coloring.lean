import Clausal.Datum
import Clausal.Encoding.AtMostOne

/-!
Graph colouring: every vertex has exactly one colour, and the two ends of an edge differ.
-/
namespace Clausal.Encoding.Coloring

/-- The variable that says that the vertex has the colour. Both are counted from 0. -/
def var (colors vertex color : Int) : Int := vertex * colors + color + 1

def numVariables (vertices colors : Int) : Int := vertices * colors

/-- Nothing is assumed about the ends of an edge; they need not be vertices of the graph. -/
def clauses (vertices : Int) (edges : List (Int × Int)) (colors : Int) : List (List Int) :=
  ((below vertices).flatMap fun vertex =>
      let own := (below colors).map (var colors vertex)
      own :: atMostOne own) ++
    edges.flatMap fun (u, v) =>
      (below colors).map fun color => [-var colors u color, -var colors v color]

/-- An edge is given by the list of its ends. -/
inductive EdgeError where
  | notIterable (kind : String)
  | tooManyEnds
  | tooFewEnds (count : Nat)

namespace EdgeError

def message : EdgeError → String
  | .notIterable kind => s!"cannot unpack non-iterable {kind} object"
  | .tooManyEnds => "too many values to unpack (expected 2)"
  | .tooFewEnds n => s!"not enough values to unpack (expected 2, got {n})"

end EdgeError

/-- The two ends; what they are is read by `readEnd`. -/
def readEdge (readEnd : Datum → Int) (edge : Datum) : Except EdgeError (Int × Int) :=
  match edge.elements? with
  | some [u, v] => .ok (readEnd u, readEnd v)
  | some (_ :: _ :: _ :: _) => .error .tooManyEnds
  | some ends => .error (.tooFewEnds ends.length)
  | none => .error (.notIterable edge.kindName)

def readEdges (readEnd : Datum → Int) (edges : List Datum) :
    Except EdgeError (List (Int × Int)) :=
  edges.mapM (readEdge readEnd)

end Clausal.Encoding.Coloring

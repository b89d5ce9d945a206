import Clausal.Dimacs.Answer
import Clausal.Dimacs.Parser
import Clausal.Encoding.Coloring
import Clausal.Encoding.Pigeonhole
import Clausal.Text.Fixed

/-!
Small problems, encoded and solved, with a commentary on what comes out.
-/
namespace Clausal.Demo

open Encoding

def rule : Text := List.replicate 60 (.char '=')

def heading (title : Text) : List Text := [[], rule, title, rule]

/-- The solution of clauses that are known to be a formula. -/
def solved? (clauses : List (List Int)) (count : Option Int) (config : Config) :
    Option Solution :=
  match Formula.ofLists clauses count with
  | .error _ => none
  | .ok f => (f.solve config).toOption

/-- Whether the solution makes the variable true. -/
def assigns (s : Solution) (v : Int) : Bool :=
  (s.assignment.bind (List.lookup v)).getD false

def coloringLines : List Text :=
  let triangle : List (Int × Int) := [(0, 1), (0, 2), (1, 2)]
  let complete : List (Int × Int) := [(0, 1), (0, 2), (0, 3), (1, 2), (1, 3), (2, 3)]
  let solve (vertices : Int) (edges : List (Int × Int)) : Option Solution :=
    solved? (Coloring.clauses vertices edges 3) (some (Coloring.numVariables vertices 3)) {}
  let first : List Text := match solve 3 triangle with
    | some s =>
      if s.isSatisfiable then
        "Triangle: SAT - 3-coloring exists!" ::
          (below 3).flatMap fun vertex =>
            ((below 3).filter fun color => assigns s (Coloring.var 3 vertex color)).map fun color =>
              Text.ofString s!"  Vertex {vertex + 1}: Color {color + 1}"
      else ["Triangle: UNSAT - No 3-coloring exists"]
    | none => []
  let second : List Text := match solve 4 complete with
    | some s => ["K4: " ++ s.verdict.name]
    | none => []
  heading "Example: Graph 3-Coloring" ++ first ++ second

def sudokuLines : List Text :=
  let values : List Int := [1, 2, 3, 4]
  let lines : List Text := match solved? (values :: atMostOne values ++ [[2, 3]]) none {} with
    | some s =>
      if s.isSatisfiable then
        "SAT - Valid assignment exists!" ::
          (values.filter (assigns s)).map fun value => Text.ofString s!"  Cell value: {value}"
      else ["UNSAT"]
    | none => []
  heading "Example: Mini Sudoku Cell (1-4)" ++ lines

def heuristicLines : List Text :=
  let lines : List Text := Heuristic.all.filterMap fun h =>
    (solved? (Pigeonhole.clauses 5 4) (some (Pigeonhole.numVariables 5 4))
      { heuristic := h }).map fun s =>
        "  " ++ Text.padRight 18 h.name ++ " " ++ Text.padRight 14 s.verdict.name ++
          Text.ofString s!" decisions={s.stats.decisions} conflicts={s.stats.conflicts}"
  heading "Example: Branching Heuristics" ++ lines

def dimacsText : String :=
  "\n    c Example CNF formula in DIMACS format\n" ++
  "    c (x1 | -x2) & (x2 | x3) & (-x1 | -x3)\n" ++
  "    p cnf 3 3\n" ++
  "    1 -2 0\n" ++
  "    2 3 0\n" ++
  "    -1 -3 0\n" ++
  "    "

def dimacsLines : List Text :=
  let answer : List Text := match Dimacs.parse dimacsText with
    | .error _ => []
    | .ok f =>
      match f.solve {} with
      | .error _ => []
      | .ok s => (Dimacs.writeAnswer s (some 10)).toOption.toList
  heading "Example: DIMACS Format" ++ [[], "DIMACS input:", dimacsText] ++ answer

def pigeonholeLines : List Text :=
  let clauses := Pigeonhole.clauses 4 3
  let lines : List Text := match solved? clauses (some (Pigeonhole.numVariables 4 3)) {} with
    | some s =>
      [if s.isSatisfiable then "SAT - Assignment found (unexpected!)"
        else "UNSAT - Cannot fit 4 pigeons in 3 holes (as expected)",
       "  " ++ s.stats.describe]
    | none => []
  heading "Example: Pigeonhole Principle (4 pigeons, 3 holes)" ++
    [[], Text.ofString s!"{clauses.length} clauses generated"] ++ lines

/-- All of them, one after the other. -/
def allLines : List Text :=
  [[], "DPLL SAT Solver - Examples", rule] ++ coloringLines ++ sudokuLines ++ heuristicLines ++
    dimacsLines ++ pigeonholeLines ++ [[], rule, "All examples completed!", rule]

def lines? (name : String) : Option (List Text) :=
  match name with
  | "3_coloring" => some coloringLines
  | "sudoku_cell" => some sudokuLines
  | "heuristics" => some heuristicLines
  | "dimacs_format" => some dimacsLines
  | "pigeonhole" => some pigeonholeLines
  | "main" => some allLines
  | _ => none

def render (lines : List Text) : Text := lines.flatMap fun line => line ++ "\n"

end Clausal.Demo

import Clausal.Literal

/-!
Occurrence counts. A tally counts for each variable up to a bound how often a list of literals
asserts it and how often it denies it, in one pass over the list.
-/
namespace Clausal

structure Tally where
  counts : Array (Nat × Nat)

namespace Tally

def add (τ : Tally) (l : Literal) : Tally :=
  ⟨τ.counts.modify (Literal.var l) fun (pos, neg) =>
    if Literal.isPositive l then (pos + 1, neg) else (pos, neg + 1)⟩

/-- Literals of variables at or beyond the bound are not counted. -/
def ofLiterals (bound : Nat) (literals : List Literal) : Tally :=
  literals.foldl add ⟨Array.replicate bound (0, 0)⟩

def count (τ : Tally) (l : Literal) : Nat :=
  match τ.counts[Literal.var l]? with
  | some (pos, neg) => if Literal.isPositive l then pos else neg
  | none => 0

/-- Occurrences of the variable under either sign. -/
def total (τ : Tally) (v : Nat) : Nat :=
  match τ.counts[v]? with
  | some (pos, neg) => pos + neg
  | none => 0

/-- The variables from 1 up to the bound. -/
def vars (τ : Tally) : List Nat := List.range' 1 (τ.counts.size - 1)

/-- Both literals of each variable, ascending, the positive one first. -/
def candidates (τ : Tally) : List Literal :=
  τ.vars.flatMap fun (v : Nat) => [(v : Int), -(v : Int)]

/-- The literals that occur while their complements do not, by ascending variable. -/
def pureLiterals (τ : Tally) : List Literal :=
  τ.candidates.filter fun l => 0 < τ.count l && τ.count (-l) == 0

/-- The literals that occur with their counts, in ascending order as integers. -/
def toList (τ : Tally) : List (Literal × Nat) :=
  let ascending := τ.vars.reverse.map (fun (v : Nat) => -(v : Int)) ++ τ.vars.map Int.ofNat
  (ascending.map fun l => (l, τ.count l)).filter fun (_, n) => 0 < n

end Tally

end Clausal

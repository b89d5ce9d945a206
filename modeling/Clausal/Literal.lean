/-!
Literals, clauses and their truth. A literal is a nonzero integer: `v` asserts variable `v` and
`-v` denies it. Truth is defined twice, under a valuation of all variables and under a partial
one; a partial valuation makes a clause true only through a variable it has a value for.
-/
namespace Clausal

abbrev Literal := Int

abbrev Clause := List Literal

namespace Literal

def var (l : Literal) : Nat := l.natAbs

def isPositive (l : Literal) : Bool := 0 < l

/-- What an occurrence of the literal counts for in a vote between the two values. -/
def polarity (l : Literal) : Int := if l.isPositive then 1 else -1

/-- The literal that gives variable `v` the value `b`. -/
def ofVar (v : Nat) (b : Bool) : Literal := if b then v else -v

/-- The truth of the literal once its variable has value `b`. -/
def under (l : Literal) (b : Bool) : Bool := b == l.isPositive

def holds (ν : Nat → Bool) (l : Literal) : Bool := l.under (ν l.var)

end Literal

namespace Clause

/-- Truth under a total valuation. -/
def holds (ν : Nat → Bool) (c : Clause) : Bool :=
  c.any (Literal.holds ν)

/-- Truth under a partial valuation. -/
def satisfiedBy (α : Nat → Option Bool) (c : Clause) : Bool :=
  c.any fun l => α (Literal.var l) == some (Literal.isPositive l)

end Clause

end Clausal

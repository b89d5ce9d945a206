import Clausal.Encoding.AtMostOne

/-!
The pigeonhole principle: every pigeon sits in a hole and no hole holds two pigeons.
-/
namespace Clausal.Encoding.Pigeonhole

/-- The variable that says that the pigeon sits in the hole. Both are counted from 0. -/
def var (holes pigeon hole : Int) : Int := pigeon * holes + hole + 1

def numVariables (pigeons holes : Int) : Int := pigeons * holes

def clauses (pigeons holes : Int) : List (List Int) :=
  ((below pigeons).map fun pigeon => (below holes).map (var holes pigeon)) ++
    (below holes).flatMap fun hole =>
      atMostOne ((below pigeons).map fun pigeon => var holes pigeon hole)

end Clausal.Encoding.Pigeonhole

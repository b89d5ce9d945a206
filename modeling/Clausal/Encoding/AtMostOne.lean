/-!
The pairwise encoding: one clause for each two literals forbids that both are true.
-/
namespace Clausal.Encoding

def atMostOne : List Int → List (List Int)
  | [] => []
  | l :: rest => rest.map (fun k => [-l, -k]) ++ atMostOne rest

/-- The numbers from 0 up to the count, none for a negative count. -/
def below (count : Int) : List Int := (List.range count.toNat).map Int.ofNat

end Clausal.Encoding

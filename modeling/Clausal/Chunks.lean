/-!
Cutting a list into stretches of equal length.
-/
namespace Clausal

/-- Stretches of `width` elements; only the last one may be shorter. -/
def chunks {α : Type} (width : Nat) (xs : List α) : List (List α) :=
  if 0 < width ∧ xs ≠ [] then xs.take width :: chunks width (xs.drop width) else []
termination_by xs.length
decreasing_by
  rename_i h
  have := List.length_pos_iff.2 h.2
  rw [List.length_drop]
  omega

end Clausal

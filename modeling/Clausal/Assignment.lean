/-!
Assignments as tables from variables to truth values, in the order in which the variables were
entered. Entering a variable again changes its value and not its place.
-/
namespace Clausal

abbrev Assignment := List (Int × Bool)

namespace Assignment

/-- Enters a value for a variable. -/
def put {α : Type} (v : Int) (value : α) : List (Int × α) → List (Int × α)
  | [] => [(v, value)]
  | (w, old) :: rest => if w = v then (w, value) :: rest else (w, old) :: put v value rest

/-- Of several values for a variable the last one counts. -/
def ofPairs {α : Type} (pairs : List (Int × α)) : List (Int × α) :=
  pairs.foldl (fun table (v, value) => put v value table) []

/-- In a table without repeated keys a lookup finds what the table holds. -/
theorem lookup_eq_some_iff {κ α : Type} [BEq κ] [LawfulBEq κ] {table : List (κ × α)}
    (distinct : (table.map Prod.fst).Nodup) {key : κ} {value : α} :
    table.lookup key = some value ↔ (key, value) ∈ table := by
  induction table with
  | nil => simp
  | cons row table ih =>
    obtain ⟨found, old⟩ := row
    simp only [List.map_cons, List.nodup_cons] at distinct
    by_cases same : key = found
    · have absent : (key, value) ∉ table := fun held =>
        distinct.1 (List.mem_map.2 ⟨_, held, same⟩)
      simp [same, eq_comm, same ▸ absent]
    · have other : (key == found) = false := beq_eq_false_iff_ne.2 same
      simp [List.lookup_cons, other, same, ih distinct.2]

/-- The partial valuation of a table. -/
def valuation (table : Assignment) (v : Nat) : Option Bool := table.lookup (v : Int)

/-- The signed literals in ascending order of variables. -/
def toLiterals (table : Assignment) : List Int :=
  (table.mergeSort fun a b => a.1 ≤ b.1).map fun (v, b) => if b then v else -v

end Assignment

end Clausal

import Clausal.Encoding.Coloring
import Clausal.Proofs.Encoding.Grid
import Clausal.Proofs.Search.Greatest
import Clausal.Proofs.Solver
import Mathlib.Data.List.FinRange

/-!
The colouring clauses say what they are meant to say: if a true variable is read as a vertex having a
colour, their models are one by one the maps from vertices to colours that give the ends of every
edge different colours. An edge may lead back to its own vertex, and then there are none.
-/
namespace Clausal.Encoding.Coloring

variable {n k : Nat} {edges : List (Fin n × Fin n)} {μ ν : Nat → Bool}
  {color color' : Fin n → Fin k}

/-- The ends of every edge have different colours. -/
def IsProper (edges : List (Fin n × Fin n)) (color : Fin n → Fin k) : Prop :=
  ∀ e ∈ edges, color e.1 ≠ color e.2

/-- The edges by the numbers of their ends. -/
def ends (edges : List (Fin n × Fin n)) : List (Int × Int) :=
  edges.map fun e => ((e.1 : Nat), (e.2 : Nat))

/-- The valuation paints every vertex in its colour and in no other one. -/
def Paints (ν : Nat → Bool) (color : Fin n → Fin k) : Prop :=
  ∀ (v : Fin n) (c : Fin k), ν (v * k + c + 1) = true ↔ color v = c

/-- The variables of a vertex. -/
def palette (k : Nat) (v : Fin n) : List Int :=
  (List.finRange k).map fun c : Fin k => (cell k v c : Int)

theorem var_natCast (k v c : Nat) : var k v c = (cell k v c : Int) := by
  simp only [var, cell, Int.natCast_add, Int.natCast_mul, Int.natCast_one]

theorem below_finRange (n : Nat) :
    below n = (List.finRange n).map fun i : Fin n => ((i : Nat) : Int) := by
  rw [below_natCast, ← List.map_coe_finRange_eq_range, List.map_map]
  rfl

theorem clauses_ends (edges : List (Fin n × Fin n)) (k : Nat) :
    clauses n (ends edges) k =
      ((List.finRange n).flatMap fun v => palette k v :: atMostOne (palette k v)) ++
        edges.flatMap fun e => (List.finRange k).map fun c : Fin k =>
          [-(cell k e.1 c : Int), -(cell k e.2 c : Int)] := by
  simp only [clauses, ends, palette, below_finRange, List.map_map, List.flatMap_map,
    Function.comp_def, var_natCast]

theorem eq_cell_of_mem_palette {v : Fin n} {l : Int} (h : l ∈ palette k v) :
    ∃ c < k, l = cell k v c := by
  obtain ⟨c, _, rfl⟩ := List.mem_map.1 h
  exact ⟨c, c.isLt, rfl⟩

theorem eq_cell_of_mem {c : List Int} {l : Int} (hc : c ∈ clauses n (ends edges) k) (hl : l ∈ c) :
    ∃ v < n, ∃ d < k, l = cell k v d ∨ l = -(cell k v d : Int) := by
  rw [clauses_ends] at hc
  rcases List.mem_append.1 hc with vertex | edge
  · obtain ⟨v, _, hc⟩ := List.mem_flatMap.1 vertex
    cases hc with
    | head =>
        obtain ⟨d, hd, literal⟩ := eq_cell_of_mem_palette hl
        exact ⟨v, v.isLt, d, hd, .inl literal⟩
    | tail _ pair =>
        obtain ⟨d, hd, complement⟩ := eq_cell_of_mem_palette (neg_mem_of_mem_atMostOne pair hl)
        exact ⟨v, v.isLt, d, hd, .inr (Int.neg_eq_comm.1 complement).symm⟩
  · obtain ⟨e, _, hc⟩ := List.mem_flatMap.1 edge
    obtain ⟨d, _, rfl⟩ := List.mem_map.1 hc
    rcases List.mem_pair.1 hl with rfl | rfl
    · exact ⟨e.1, e.1.isLt, d, d.isLt, .inr rfl⟩
    · exact ⟨e.2, e.2.isLt, d, d.isLt, .inr rfl⟩

theorem cells_le_length (edges : List (Fin n × Fin n)) (k : Nat) :
    n * k ≤ (clauses n (ends edges) k).flatten.length := by
  refine le_length_of_cells fun i hi j hj => ?_
  rw [clauses_ends]
  refine List.mem_flatten.2 ⟨palette k ⟨i, hi⟩, List.mem_append_left _ ?_, ?_⟩
  · exact List.mem_flatMap.2 ⟨⟨i, hi⟩, List.mem_finRange _, List.mem_cons_self⟩
  · exact List.mem_map.2 ⟨⟨j, hj⟩, List.mem_finRange _, rfl⟩

theorem exists_formula (edges : List (Fin n × Fin n)) (k : Nat) :
    ∃ f, Formula.ofLists (clauses n (ends edges) k) (some (numVariables n k)) = .ok f ∧
      f.numVariables = n * k := by
  have size : numVariables n k = ((n * k : Nat) : Int) := (Int.natCast_mul n k).symm
  rw [size]
  exact exists_formula_of_cells fun c hc l hl => eq_cell_of_mem hc hl

/-- The clauses of a vertex ask for exactly one colour. -/
theorem holds_vertex_iff (ν : Nat → Bool) (k : Nat) (v : Fin n) :
    (∀ c ∈ palette k v :: atMostOne (palette k v), Clause.holds ν c = true) ↔
      ∃! c : Fin k, ν (cell k v c) = true := by
  have some_ : Clause.holds ν (palette k v) = true ↔ ∃ c : Fin k, ν (cell k v c) = true := by
    simp only [Clause.holds_iff, palette, List.mem_map, List.mem_finRange, true_and,
      exists_exists_eq_and, holds_cell]
  have single : (∀ c ∈ atMostOne (palette k v), Clause.holds ν c = true) ↔
      ∀ c d : Fin k, ν (cell k v c) = true → ν (cell k v d) = true → c = d := by
    rw [palette, holds_atMostOne_iff (List.nodup_finRange k) fun c _ => cell_ne_zero k v c]
    simp only [List.mem_finRange, true_imp_iff, holds_cell]
  rw [List.forall_mem_cons, some_, single]
  constructor
  · rintro ⟨exists_, unique⟩
    exact existsUnique_of_exists_of_unique exists_ unique
  · intro one
    exact ⟨one.exists, fun c d => one.unique⟩

/-- The clause of an edge and a colour also says that if the edge is a loop: then it has the same
literal twice. -/
theorem holds_edge_iff (ν : Nat → Bool) (k u v c : Nat) :
    Clause.holds ν [-(cell k u c : Int), -(cell k v c : Int)] = true ↔
      ¬(ν (cell k u c) = true ∧ ν (cell k v c) = true) := by
  rw [holds_pair_iff (cell_ne_zero k u c) (cell_ne_zero k v c), holds_cell, holds_cell]

theorem holds_clauses_iff (edges : List (Fin n × Fin n)) (k : Nat) (ν : Nat → Bool) :
    (∀ c ∈ clauses n (ends edges) k, Clause.holds ν c = true) ↔
      ∃ color : Fin n → Fin k, IsProper edges color ∧ Paints ν color := by
  simp only [clauses_ends, List.forall_mem_append, List.forall_mem_flatMap, List.forall_mem_map,
    List.mem_finRange, true_imp_iff, holds_vertex_iff, holds_edge_iff]
  constructor
  · rintro ⟨painted, apart⟩
    choose color has only using painted
    refine ⟨color, ?_, ?_⟩
    · intro e he same
      exact apart e he (color e.1) ⟨has e.1, same ▸ has e.2⟩
    · intro v c
      constructor
      · intro hc
        exact (only v c hc).symm
      · rintro rfl
        exact has v
  · rintro ⟨color, proper, paints⟩
    refine ⟨fun v => ⟨color v, (paints v _).2 rfl, fun c hc => ((paints v c).1 hc).symm⟩, ?_⟩
    rintro e he c ⟨first, second⟩
    exact proper e he (((paints e.1 c).1 first).trans ((paints e.2 c).1 second).symm)

namespace Paints

theorem unique (h : Paints ν color) (h' : Paints ν color') : color = color' :=
  funext fun v => ((h' v (color v)).1 ((h v (color v)).2 rfl)).symm

theorem congr (h : Paints μ color) (same : ∀ w, 1 ≤ w → w ≤ n * k → μ w = ν w) :
    Paints ν color := by
  intro v c
  rw [← same (v * k + c + 1) (one_le_cell k v c) (cell_le v.isLt c.isLt)]
  exact h v c

/-- The colours leave no variable open. -/
theorem agree (h : Paints μ color) (h' : Paints ν color) {w : Nat} (positive : 1 ≤ w)
    (inside : w ≤ n * k) : μ w = ν w := by
  obtain ⟨v, hv, c, hc, rfl⟩ := exists_cell positive inside
  exact Bool.eq_iff_iff.2 ((h ⟨v, hv⟩ ⟨c, hc⟩).trans (h' ⟨v, hv⟩ ⟨c, hc⟩).symm)

end Paints

theorem exists_paints (color : Fin n → Fin k) : ∃ ν, Paints ν color := by
  obtain ⟨ν, reads⟩ := exists_valuation k fun i j => ∃ v : Fin n, v = i ∧ (color v : Nat) = j
  refine ⟨ν, fun v c => (reads v c c.isLt).trans ?_⟩
  constructor
  · rintro ⟨w, same, painted⟩
    exact Fin.ext (Fin.ext same ▸ painted)
  · rintro rfl
    exact ⟨v, rfl, rfl⟩

/-- Models that are told apart by their values for the variables correspond to colourings. -/
theorem exists_reading {f : Formula} (size : f.numVariables = n * k)
    (models : ∀ ν, f.holds ν = true ↔
      ∃ color : Fin n → Fin k, IsProper edges color ∧ Paints ν color) :
    ∃ reading : f.models ≃ {color : Fin n → Fin k // IsProper edges color},
      ∀ ν (model : f.holds ν = true),
        Paints ν (reading ⟨f.vars.map ν, f.mem_models model⟩).val := by
  have alike {μ ν : Nat → Bool} :
      f.vars.map μ = f.vars.map ν ↔ ∀ w, 1 ≤ w → w ≤ n * k → μ w = ν w := by
    simp only [List.map_inj_left, Formula.mem_vars, size, and_imp]
  choose written paints using exists_paints (n := n) (k := k)
  let write (color : {color : Fin n → Fin k // IsProper edges color}) : f.models :=
    ⟨f.vars.map (written color), f.mem_models ((models _).2 ⟨color, color.2, paints color⟩)⟩
  have bijective : Function.Bijective write := by
    constructor
    · intro color color' same
      have values := alike.1 (congrArg Subtype.val same)
      exact Subtype.ext (((paints color).congr values).unique (paints color'))
    · rintro ⟨_, ν, model, rfl⟩
      obtain ⟨color, proper, painted⟩ := (models ν).1 model
      exact ⟨⟨color, proper⟩, Subtype.ext (alike.2 fun w => (paints color).agree painted)⟩
  let reading := (Equiv.ofBijective write bijective).symm
  refine ⟨reading, fun ν model => ?_⟩
  have back := reading.symm_apply_apply ⟨f.vars.map ν, f.mem_models model⟩
  exact (paints _).congr (alike.1 (congrArg Subtype.val back))

/-- The clauses are a formula with a variable for each vertex and colour. If a true variable is read
as the vertex having the colour, its models are one by one the proper colourings of the graph. So the
solver finds a model, under any configuration, exactly when there is such a colouring, and the model
gives every vertex exactly the colour that the colouring gives it. There are as many literals as
variables: clauses for which a search finds no room for its trail would have no room themselves. -/
theorem solve_coloring (n k : Nat) (edges : List (Fin n × Fin n)) :
    numVariables n k = (n * k : Nat) ∧
    ∃ f, Formula.ofLists (clauses n (ends edges) k) (some (numVariables n k)) = .ok f ∧
      f.numVariables = n * k ∧
      (∀ ν, f.holds ν = true ↔ ∀ c ∈ clauses n (ends edges) k, Clause.holds ν c = true) ∧
      (∃ reading : f.models ≃ {color : Fin n → Fin k // IsProper edges color},
        ∀ ν (model : f.holds ν = true),
          Paints ν (reading ⟨f.vars.map ν, f.mem_models model⟩).val) ∧
      f.numVariables ≤ (clauses n (ends edges) k).flatten.length ∧
      ∀ config, f.SolvedWith config fun r =>
        (r.verdict = .satisfiable ↔ ∃ color : Fin n → Fin k, IsProper edges color) ∧
        (r.verdict = .satisfiable → ∃ model, r.assignment = some model ∧
          ∃ color : Fin n → Fin k, IsProper edges color ∧
            ∀ (v : Fin n) (c : Fin k),
              model.valuation (v * k + c + 1) = some (decide (color v = c))) := by
  obtain ⟨f, accepted, size⟩ := exists_formula edges k
  have given (ν : Nat → Bool) :
      f.holds ν = true ↔ ∀ c ∈ clauses n (ends edges) k, Clause.holds ν c = true :=
    Formula.holds_of_clauses_eq (Formula.ofLists_eq_ok accepted).1
  have models (ν : Nat → Bool) : f.holds ν = true ↔
      ∃ color : Fin n → Fin k, IsProper edges color ∧ Paints ν color :=
    (given ν).trans (holds_clauses_iff edges k ν)
  refine ⟨(Int.natCast_mul n k).symm, f, accepted, size, given, exists_reading size models,
    size ▸ cells_le_length edges k, fun config => ?_⟩
  refine (f.solve_model config).imp fun r ⟨verdict, answer⟩ => ?_
  refine ⟨verdict.trans ⟨?_, ?_⟩, fun satisfiable => ?_⟩
  · rintro ⟨ν, model⟩
    obtain ⟨color, proper, _⟩ := (models ν).1 model
    exact ⟨color, proper⟩
  · rintro ⟨color, proper⟩
    obtain ⟨ν, paints⟩ := exists_paints color
    exact ⟨ν, (models ν).2 ⟨color, proper, paints⟩⟩
  · obtain ⟨ν, model, holds, found, values⟩ := answer satisfiable
    obtain ⟨color, proper, paints⟩ := (models ν).1 holds
    refine ⟨model, found, color, proper, fun v c => ?_⟩
    have inside : v * k + c + 1 ∈ f.vars :=
      Formula.mem_vars.2 ⟨one_le_cell k v c, size ▸ cell_le v.isLt c.isLt⟩
    rw [values _ inside, Bool.eq_iff_iff.2 ((paints v c).trans decide_eq_true_iff.symm)]

end Clausal.Encoding.Coloring

import Clausal.Heuristic
import Clausal.Proofs.Propagation.PureLiteral

/-!
Branching choices. On an incomplete trail every heuristic finds a variable of the formula that has
no value yet; the one that goes by order finds the first such variable and tries true first.
-/
namespace Clausal

namespace Trail

/-- A variable that can still be decided. -/
def IsOpen (n : Nat) (t : Trail) (v : Nat) : Prop :=
  1 ≤ v ∧ v ≤ n ∧ t.value v = none

variable {n : Nat} {t : Trail} {v : Nat}

theorem Coherent.exists_isOpen (co : Coherent n t) (incomplete : t.isComplete = false) :
    ∃ v, t.IsOpen n v := by
  by_contra none_
  have complete : t.isComplete = true := by
    rw [co.isComplete_iff]
    intro v low high fresh
    exact none_ ⟨v, low, high, fresh⟩
  rw [incomplete] at complete
  cases complete

theorem IsOpen.exists_assign (h : t.IsOpen n v) (co : Coherent n t) (b : Bool)
    (kind : Entry.Kind) : ∃ u, t.assign v b kind = .ok u :=
  co.exists_assign h.1 h.2.1 h.2.2 b kind

theorem Coherent.firstUnassigned_spec (co : Coherent n t) (count : Nat) (last : v + count ≤ n + 1)
    (exists_ : ∃ w, v ≤ w ∧ w < v + count ∧ t.value w = none) :
    ∃ w, t.firstUnassigned v count = .ok w ∧ v ≤ w ∧ w < v + count ∧ t.value w = none ∧
      ∀ u, v ≤ u → u < w → t.value u ≠ none := by
  induction count generalizing v with
  | zero =>
      obtain ⟨w, low, high, _⟩ := exists_
      omega
  | succ count ih =>
      rw [firstUnassigned, co.lookup_eq (by omega)]
      cases held : t.value v with
      | none => exact ⟨v, rfl, Nat.le_refl v, by omega, held, fun u low high => by omega⟩
      | some b =>
          obtain ⟨w, low, high, fresh⟩ := exists_
          have later : v ≠ w := by
            rintro rfl
            rw [held] at fresh
            cases fresh
          obtain ⟨x, found, lowX, highX, freshX, before⟩ :=
            ih (v := v + 1) (by omega) ⟨w, by omega, by omega, fresh⟩
          refine ⟨x, found, by omega, by omega, freshX, ?_⟩
          intro u lowU highU
          by_cases first : u = v
          · simp [first, held]
          · exact before u (by omega) highU

theorem isOpen_of_mem_openOccurrences {f : Formula} {l : Literal}
    (h : l ∈ t.openOccurrences f.clauses) : t.IsOpen f.numVariables (Literal.var l) := by
  obtain ⟨c, hc, _, hl, fresh⟩ := mem_openOccurrences.1 h
  exact ⟨Literal.var_pos (Formula.ne_zero_of_mem hc hl), Formula.var_le_of_mem hc hl, fresh⟩

theorem Coherent.occurrences_eq {f : Formula} (co : Coherent f.numVariables t) :
    t.occurrences f.clauses none = .ok (t.tally (t.openOccurrences f.clauses)) := by
  have left := co.residuals_eq fun c hc l hl => Formula.var_le_of_mem (f := f) hc hl
  rw [occurrences, left]
  rfl

theorem Coherent.openVars_spec {f : Formula} (co : Coherent f.numVariables t) :
    ∃ candidates, f.openVars t = .ok candidates ∧ candidates.Pairwise (· < ·) ∧
      ∀ v, v ∈ candidates ↔ t.IsOpen f.numVariables v := by
  refine ⟨f.vars.filter fun v => (t.value v).isNone, ?_, ?_, fun v => ?_⟩
  · rw [Formula.openVars, co.covers, if_pos rfl]
  · exact List.Pairwise.filter _ List.pairwise_lt_range'
  · rw [List.mem_filter, Formula.mem_vars, Option.isNone_iff_eq_none, and_assoc, IsOpen]

theorem Coherent.mem_filter_count {f : Formula} (co : Coherent f.numVariables t) {l : Literal} :
    l ∈ (t.tally (t.openOccurrences f.clauses)).candidates.filter
        (fun k => 0 < (t.tally (t.openOccurrences f.clauses)).count k) ↔
      l ∈ t.openOccurrences f.clauses := by
  rw [List.mem_filter, tally, Tally.mem_candidates, co.cells, decide_eq_true_eq]
  constructor
  · rintro ⟨⟨nonzero, _⟩, counted⟩
    exact ((Tally.count_pos_iff nonzero).1 counted).2
  · intro occurs
    obtain ⟨low, high, _⟩ := isOpen_of_mem_openOccurrences occurs
    have nonzero : l ≠ 0 := Int.natAbs_pos.1 low
    have inside : Literal.var l < f.numVariables + 1 := Nat.lt_succ_of_le high
    exact ⟨⟨nonzero, inside⟩, (Tally.count_pos_iff nonzero).2 ⟨inside, occurs⟩⟩

theorem Coherent.mem_filter_total {f : Formula} (co : Coherent f.numVariables t) {v : Nat} :
    v ∈ (t.tally (t.openOccurrences f.clauses)).vars.filter
        (fun w => 0 < (t.tally (t.openOccurrences f.clauses)).total w) ↔
      ∃ l ∈ t.openOccurrences f.clauses, Literal.var l = v := by
  rw [List.mem_filter, tally, Tally.mem_vars, co.cells, decide_eq_true_eq]
  constructor
  · rintro ⟨⟨_, inside⟩, counted⟩
    rw [Tally.total_ofLiterals inside, List.countP_pos_iff] at counted
    simpa only [beq_iff_eq] using counted
  · rintro ⟨l, occurs, rfl⟩
    obtain ⟨low, high, _⟩ := isOpen_of_mem_openOccurrences occurs
    have inside : Literal.var l < f.numVariables + 1 := Nat.lt_succ_of_le high
    rw [Tally.total_ofLiterals inside, List.countP_pos_iff]
    exact ⟨⟨low, inside⟩, l, occurs, beq_self_eq_true _⟩

end Trail

namespace Heuristic

open Trail

theorem foldl_max_mem {xs : List Nat} (h : xs ≠ []) : xs.foldl max 0 ∈ xs := by
  rw [List.foldl_max_eq_max h, Nat.zero_max]
  exact List.max_mem h

theorem narrow_spec {candidates : List Nat} (h : candidates ≠ []) (scores : List (Nat → Nat)) :
    narrow candidates scores ≠ [] ∧ ∀ v ∈ narrow candidates scores, v ∈ candidates := by
  induction scores generalizing candidates with
  | nil => exact ⟨h, fun v hv => hv⟩
  | cons score rest ih =>
      have kept :
          candidates.filter (fun v => score v == (candidates.map score).foldl max 0) ≠ [] := by
        obtain ⟨v, hv, greatest⟩ := List.mem_map.1 (foldl_max_mem (mt List.map_eq_nil_iff.1 h))
        exact List.ne_nil_of_mem (List.mem_filter.2 ⟨hv, by simpa using greatest⟩)
      rw [narrow]
      split
      · exact ⟨kept, fun v hv => (List.mem_filter.1 hv).1⟩
      · obtain ⟨nonempty, sub⟩ := ih kept
        exact ⟨nonempty, fun v hv => (List.mem_filter.1 (sub v hv)).1⟩

variable {f : Formula} {t : Trail}

theorem chooseOrdered_spec (co : Coherent f.numVariables t) (incomplete : t.isComplete = false) :
    ∃ v, chooseOrdered f t = .ok (v, true) ∧ t.IsOpen f.numVariables v ∧
      ∀ w, 1 ≤ w → w < v → t.value w ≠ none := by
  obtain ⟨w, low, high, fresh⟩ := co.exists_isOpen incomplete
  obtain ⟨v, found, lowV, highV, freshV, before⟩ :=
    co.firstUnassigned_spec (v := 1) f.numVariables (by omega)
      ⟨w, low, by omega, fresh⟩
  refine ⟨v, ?_, ⟨lowV, by omega, freshV⟩, before⟩
  rw [chooseOrdered, found]

theorem chooseMostLiteral_spec (co : Coherent f.numVariables t)
    (incomplete : t.isComplete = false) :
    ∃ v b, chooseMostLiteral f t = .ok (v, b) ∧ t.IsOpen f.numVariables v := by
  rw [chooseMostLiteral, co.occurrences_eq]
  dsimp only
  split
  · rename_i l found
    have occurs := co.mem_filter_count.1 (List.maxOn?_mem found)
    exact ⟨_, _, rfl, isOpen_of_mem_openOccurrences occurs⟩
  · obtain ⟨v, found, open_, _⟩ := chooseOrdered_spec co incomplete
    exact ⟨v, true, found, open_⟩

theorem chooseMostVariable_spec (co : Coherent f.numVariables t)
    (incomplete : t.isComplete = false) :
    ∃ v, chooseMostVariable f t = .ok (v, true) ∧ t.IsOpen f.numVariables v := by
  rw [chooseMostVariable, co.occurrences_eq]
  dsimp only
  split
  · rename_i v found
    obtain ⟨l, occurs, var⟩ := co.mem_filter_total.1 (List.maxOn?_mem found)
    exact ⟨v, rfl, var ▸ isOpen_of_mem_openOccurrences occurs⟩
  · obtain ⟨v, found, open_, _⟩ := chooseOrdered_spec co incomplete
    exact ⟨v, found, open_⟩

theorem chooseMinClauseLength_spec (co : Coherent f.numVariables t)
    (incomplete : t.isComplete = false) :
    ∃ v b, chooseMinClauseLength f t = .ok (v, b) ∧ t.IsOpen f.numVariables v := by
  have left := co.residuals_eq fun c hc l hl => Formula.var_le_of_mem (f := f) hc hl
  obtain ⟨candidates, listed, _, isOpen⟩ := co.openVars_spec
  have nonempty : candidates ≠ [] := by
    obtain ⟨v, open_⟩ := co.exists_isOpen incomplete
    exact List.ne_nil_of_mem ((isOpen v).2 open_)
  rw [chooseMinClauseLength, listed, left]
  dsimp only
  split
  · rename_i none_
    exact absurd none_ (narrow_spec nonempty _).1
  · rename_i v rest narrowed
    have hv := (narrow_spec nonempty _).2 v (narrowed ▸ List.mem_cons_self)
    exact ⟨v, _, rfl, (isOpen v).1 hv⟩

/-- Every heuristic decides a variable that is still open. -/
theorem choose_spec (h : Heuristic) (co : Coherent f.numVariables t)
    (incomplete : t.isComplete = false) :
    ∃ v b, h.choose f t = .ok (v, b) ∧ t.IsOpen f.numVariables v := by
  cases h with
  | order =>
      obtain ⟨v, found, open_, _⟩ := chooseOrdered_spec co incomplete
      exact ⟨v, true, found, open_⟩
  | mostLiteral => exact chooseMostLiteral_spec co incomplete
  | mostVariable =>
      obtain ⟨v, found, open_⟩ := chooseMostVariable_spec co incomplete
      exact ⟨v, true, found, open_⟩
  | polarity =>
      obtain ⟨v, found, open_⟩ := chooseMostVariable_spec co incomplete
      refine ⟨v, decide (0 ≤ f.polarityScore v), ?_, open_⟩
      rw [choose, choosePolarity, found]
  | minClauseLength => exact chooseMinClauseLength_spec co incomplete

end Heuristic

end Clausal

import Clausal.Proofs.Branching.Occurrences
import Mathlib.Data.Prod.Lex

/-!
Branching by short clauses. Going through the scores one by one and keeping the candidates of the
greatest one leaves the candidates whose scores, taken together, are the greatest in lexicographic
order. The first of those is the lowest variable, since candidates are listed in ascending order.
-/
namespace Clausal

namespace Heuristic

/-- The candidates with the greatest score. -/
def keepBest (candidates : List Nat) (score : Nat → Nat) : List Nat :=
  candidates.filter fun v => score v == (candidates.map score).foldl max 0

/-- The weights do not favour a sign, so the score is the number of occurrences. -/
theorem score_eq_total (τ : Tally) {v : Nat} (positive : 1 ≤ v) : score τ v = τ.total v := by
  rw [score, majorWeight, minorWeight, Nat.one_mul, Nat.one_mul, ← τ.count_add_count_neg positive]
  omega

variable {candidates rest : List Nat} {score : Nat → Nat} {scores : List (Nat → Nat)} {v : Nat}

theorem mem_keepBest :
    v ∈ keepBest candidates score ↔ v ∈ candidates ∧ ∀ w ∈ candidates, score w ≤ score v := by
  rw [keepBest, List.mem_filter, beq_iff_eq]
  refine and_congr_right fun hv => ?_
  have nonempty : candidates.map score ≠ [] := List.ne_nil_of_mem (List.mem_map_of_mem hv)
  have greatest (w : Nat) (hw : w ∈ candidates) : score w ≤ (candidates.map score).foldl max 0 := by
    rw [List.foldl_max_eq_max nonempty, Nat.zero_max]
    exact List.le_max_of_mem (List.mem_map_of_mem hw)
  constructor
  · intro best w hw
    exact best ▸ greatest w hw
  · intro best
    obtain ⟨w, hw, reached⟩ := List.mem_map.1 (foldl_max_mem nonempty)
    exact Nat.le_antisymm (greatest v hv) (reached ▸ best w hw)

theorem keepBest_singleton (v : Nat) (score : Nat → Nat) : keepBest [v] score = [v] :=
  List.filter_eq_self.2 fun w hw => by simp [List.mem_singleton.1 hw]

/-- Once a single candidate is left, further rounds would keep it. -/
theorem narrow_eq_foldl (candidates : List Nat) (scores : List (Nat → Nat)) :
    narrow candidates scores = scores.foldl keepBest candidates := by
  induction scores generalizing candidates with
  | nil => rfl
  | cons score scores ih =>
      rw [narrow, List.foldl_cons]
      change (if (keepBest candidates score).length = 1 then keepBest candidates score
        else narrow (keepBest candidates score) scores) = _
      split
      · rename_i single
        obtain ⟨v, kept⟩ := List.length_eq_one_iff.1 single
        rw [kept]
        exact (List.foldl_fixed' (keepBest_singleton v) scores).symm
      · exact ih _

theorem mem_foldl_keepBest :
    v ∈ scores.foldl keepBest candidates ↔ v ∈ candidates ∧ ∀ w ∈ candidates,
      scores.map (· w) < scores.map (· v) ∨ scores.map (· w) = scores.map (· v) := by
  induction scores generalizing candidates with
  | nil => simp
  | cons score scores ih =>
      simp only [List.foldl_cons, ih, mem_keepBest, List.map_cons, List.cons_lt_cons_iff,
        List.cons.injEq, and_assoc]
      refine and_congr_right fun hv => ?_
      constructor
      · rintro ⟨best, later⟩ w hw
        rcases Nat.lt_or_eq_of_le (best w hw) with less | same
        · exact .inl (.inl less)
        · have bestW : ∀ u ∈ candidates, score u ≤ score w := fun u hu => same ▸ best u hu
          exact (later w ⟨hw, bestW⟩).imp (fun less => .inr ⟨same, less⟩) fun rest => ⟨same, rest⟩
      · intro greatest
        refine ⟨fun w hw => ?_, fun w ⟨hw, bestW⟩ => ?_⟩
        · rcases greatest w hw with (less | ⟨same, _⟩) | ⟨same, _⟩ <;> omega
        · rcases greatest w hw with (less | ⟨_, less⟩) | ⟨_, rest⟩
          · exact absurd (bestW v hv) (Nat.not_le.2 less)
          · exact .inl less
          · exact .inr rest

theorem pairwise_foldl_keepBest {before : Nat → Nat → Prop} (ordered : candidates.Pairwise before) :
    (scores.foldl keepBest candidates).Pairwise before := by
  induction scores generalizing candidates with
  | nil => exact ordered
  | cons score scores ih => exact ih (ordered.filter _)

/-- The first candidate that is left has the greatest scores, and the least variable among those. -/
theorem narrow_head (ascending : candidates.Pairwise (· < ·))
    (narrowed : narrow candidates scores = v :: rest) :
    v ∈ candidates ∧ ∀ w ∈ candidates, w ≠ v →
      scores.map (· w) < scores.map (· v) ∨ scores.map (· w) = scores.map (· v) ∧ v < w := by
  rw [narrow_eq_foldl] at narrowed
  have kept : (scores.foldl keepBest candidates).Pairwise (· < ·) :=
    pairwise_foldl_keepBest ascending
  rw [narrowed, List.pairwise_cons] at kept
  obtain ⟨hv, greatest⟩ := mem_foldl_keepBest.1 (narrowed ▸ List.mem_cons_self)
  refine ⟨hv, fun w hw other => ?_⟩
  rcases greatest w hw with less | same
  · exact .inl less
  · have hw' : w ∈ v :: rest :=
      narrowed ▸ mem_foldl_keepBest.2 ⟨hw, fun u hu => same ▸ greatest u hu⟩
    exact .inr ⟨same, kept.1 w ((List.mem_cons.1 hw').resolve_left other)⟩

end Heuristic

namespace Formula

/-- How often the variable occurs, under either sign, among the open literals of those unsatisfied
clauses that have exactly `k` of them. -/
def shortDemand (f : Formula) (t : Trail) (k v : Nat) : Nat :=
  (((f.unsatisfied t).filter fun c => (t.openLiterals c).length == k).flatMap
    t.openLiterals).countP fun l => Literal.var l == v

/-- Variables by frequency in clauses of two, three and four open literals, the lower one first. -/
def shortRank (f : Formula) (t : Trail) (v : Nat) : ℕ ×ₗ ℕ ×ₗ ℕ ×ₗ ℤ :=
  toLex (f.shortDemand t 2 v, toLex (f.shortDemand t 3 v, toLex (f.shortDemand t 4 v, -(v : ℤ))))

variable {f : Formula} {t : Trail} {v w : Nat}

theorem score_tally_short (co : Trail.Coherent f.numVariables t)
    (open_ : t.IsOpen f.numVariables v) (k : Nat) :
    Heuristic.score
        (t.tally ((((f.unsatisfied t).map t.openLiterals).filter (·.length == k)).flatten)) v =
      f.shortDemand t k v := by
  have inside : v < t.values.size := by rw [co.cells]; exact Nat.lt_succ_of_le open_.2.1
  rw [Heuristic.score_eq_total _ open_.1, Trail.tally, Tally.total_ofLiterals inside,
    List.filter_map, ← List.flatMap_def]
  rfl

theorem map_score_tally_short (co : Trail.Coherent f.numVariables t)
    (open_ : t.IsOpen f.numVariables v) :
    (Heuristic.shortSizes.map fun k => Heuristic.score (t.tally
      ((((f.unsatisfied t).map t.openLiterals).filter (·.length == k)).flatten))).map (· v) =
      Heuristic.shortSizes.map (f.shortDemand t · v) := by
  rw [List.map_map]
  exact List.map_congr_left fun k _ => score_tally_short co open_ k

theorem shortRank_lt_iff : f.shortRank t w < f.shortRank t v ↔
    Heuristic.shortSizes.map (f.shortDemand t · w) <
        Heuristic.shortSizes.map (f.shortDemand t · v) ∨
      Heuristic.shortSizes.map (f.shortDemand t · w) =
        Heuristic.shortSizes.map (f.shortDemand t · v) ∧ v < w := by
  simp only [shortRank, Prod.Lex.toLex_lt_toLex, Heuristic.shortSizes, List.map_cons, List.map_nil,
    List.cons_lt_cons_iff, List.cons.injEq, List.not_lt_nil, and_true, and_false, or_false]
  omega

end Formula

namespace Heuristic

open Trail

variable {f : Formula} {t : Trail}

/-- As long as the trail is incomplete, the choice is the open variable that ranks highest by
frequency in the shortest unsatisfied clauses, with the value that more of all unsatisfied clauses
ask for, false if neither is. To stop narrowing at a single candidate makes no difference. -/
theorem chooses_most_in_shortest (grown : Grows (.empty f.numVariables) t)
    (incomplete : t.isComplete = false) :
    (∃ v b, minClauseLength.choose f t = .ok (v, b) ∧ t.IsOpen f.numVariables v ∧
      (∀ w, t.IsOpen f.numVariables w → w ≠ v → f.shortRank t w < f.shortRank t v) ∧
      (b = true ↔ f.demand t (-v) < f.demand t v)) ∧
    ∀ candidates scores, narrow candidates scores = scores.foldl keepBest candidates := by
  have co := (coherent_empty f.numVariables).grows grown
  have left := co.residuals_eq fun c hc l hl => Formula.var_le_of_mem (f := f) hc hl
  obtain ⟨candidates, listed, ascending, isOpen⟩ := co.openVars_spec
  have nonempty : candidates ≠ [] := by
    obtain ⟨v, open_⟩ := co.exists_isOpen incomplete
    exact List.ne_nil_of_mem ((isOpen v).2 open_)
  refine ⟨?_, narrow_eq_foldl⟩
  rw [choose, chooseMinClauseLength, listed, left]
  dsimp only
  split
  · rename_i none_
    exact absurd none_ (narrow_spec nonempty _).1
  · rename_i v rest narrowed
    obtain ⟨hv, greatest⟩ := narrow_head ascending narrowed
    have openV := (isOpen v).1 hv
    refine ⟨v, _, rfl, openV, ?_, ?_⟩
    · intro w openW other
      have above := greatest w ((isOpen w).2 openW) other
      rw [← Formula.unsatisfied, Formula.map_score_tally_short co openW,
        Formula.map_score_tally_short co openV] at above
      exact Formula.shortRank_lt_iff.2 above
    · have asserts := Formula.count_tally (l := v) co (by rwa [Literal.var_natCast])
      have denies := Formula.count_tally (l := -(v : Int)) co
        (by rwa [Literal.var_neg, Literal.var_natCast])
      rw [decide_eq_true_iff, ← asserts, ← denies]
      rfl

theorem chooses_most_in_shortest_third :
    let f : Formula :=
      ⟨5, [[2, 3, -5], [1, 3, 4], [-1, -2, -3, -4], [5, -3]], by decide, by decide⟩
    let t : Trail := ⟨5, #[none, none, none, none, none, some true], [⟨5, true, .decision⟩], 1⟩
    Grows (.empty f.numVariables) t ∧ t.isComplete = false ∧
      minClauseLength.choose f t = .ok (3, true) ∧ f.shortRank t 2 < f.shortRank t 3 ∧
      f.demand t (-3) < f.demand t 3 := by
  intro f t
  have decided : (Trail.empty f.numVariables).assign 5 true .decision = .ok t := rfl
  have grown : Grows (.empty f.numVariables) t := .assign .refl decided
  obtain ⟨⟨v, b, chosen, _, above, sign⟩, _⟩ := chooses_most_in_shortest grown rfl
  have evaluated : minClauseLength.choose f t = .ok (3, true) := by
    dsimp only [f, t]
    rfl
  obtain ⟨rfl, rfl⟩ := Prod.mk.inj (Except.ok.inj (chosen.symm.trans evaluated))
  exact ⟨grown, rfl, evaluated, above 2 ⟨by decide, by decide, rfl⟩ (by decide), sign.1 rfl⟩

end Heuristic

end Clausal

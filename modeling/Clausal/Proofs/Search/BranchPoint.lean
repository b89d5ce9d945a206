import Clausal.Proofs.Branching.Frequency
import Clausal.Proofs.Propagation.Outcome
import Clausal.Proofs.Search.Run

/-!
Where the search branches. Propagation has come to a fixpoint that neither assigns all variables nor
satisfies all clauses, so what is left of the formula has no empty and no unit clause, but some
clause. The scan of the clauses by propagation and the one by the heuristics agree on that, so every
choice by frequency finds a literal to go by.
-/
namespace Clausal

namespace Trail

variable {f : Formula} {t : Trail} {c : Clause}

/-- A clause that is neither satisfied nor falsified nor unit has at least two open literals. -/
theorem Coherent.status_of_settles (co : Coherent f.numVariables t)
    (hc : c ∈ f.unsatisfied t) (settled : t.Settles c) :
    t.clauseStatus c = .ok .undetermined ∧ 2 ≤ (t.openLiterals c).length := by
  obtain ⟨among, unsatisfied⟩ := List.mem_filter.1 hc
  rw [Bool.not_eq_true'] at unsatisfied
  have scanned := co.clauseStatus_eq fun l hl => Formula.var_le_of_mem among hl
  simp only [unsatisfied, Bool.false_eq_true, if_false] at scanned
  rcases settled with satisfied | undetermined
  · rw [scanned, Except.ok.injEq] at satisfied
    exact absurd satisfied (ClauseStatus.ofOpen_ne_satisfied _)
  · refine ⟨undetermined, ?_⟩
    rw [scanned, Except.ok.injEq] at undetermined
    exact ClauseStatus.ofOpen_eq_undetermined_iff.1 undetermined

theorem Coherent.exists_mem_unsatisfied (co : Coherent f.numVariables t)
    (unsatisfied : t.allSatisfied f.clauses = .ok false) : ∃ c, c ∈ f.unsatisfied t := by
  rw [co.allSatisfied_eq fun c hc l hl => Formula.var_le_of_mem hc hl, Except.ok.injEq,
    List.all_eq_false] at unsatisfied
  obtain ⟨c, hc, not⟩ := unsatisfied
  refine ⟨c, List.mem_filter.2 ⟨hc, ?_⟩⟩
  rw [Bool.not_eq_true', ← Bool.not_eq_true]
  exact not

/-- With a size, the clauses that are left with another number of open literals do not count. -/
theorem Coherent.occurrences_some_eq (co : Coherent f.numVariables t) (k : Int) :
    t.occurrences f.clauses (some k) =
      .ok (t.tally (((f.unsatisfied t).map t.openLiterals).filter
        fun c => (c.length : Int) == k).flatten) := by
  rw [occurrences, co.residuals_eq fun c hc l hl => Formula.var_le_of_mem hc hl]
  rfl

theorem Coherent.toList_ne_nil (co : Coherent f.numVariables t) {l : Literal}
    (occurs : l ∈ t.openOccurrences f.clauses) :
    (t.tally (t.openOccurrences f.clauses)).toList ≠ [] := by
  obtain ⟨low, high, _⟩ := isOpen_of_mem_openOccurrences occurs
  have inside : Literal.var l < t.values.size := by
    rw [co.cells]
    exact Nat.lt_succ_of_le high
  have positive : 0 < (t.openOccurrences f.clauses).count l := List.count_pos_iff.2 occurs
  exact List.ne_nil_of_mem
    (Tally.mem_toList.2 ⟨⟨Int.natAbs_pos.1 low, inside⟩, rfl, positive⟩)

theorem toList_tally_nil (t : Trail) : (t.tally []).toList = [] := by
  rw [List.eq_nil_iff_forall_not_mem]
  rintro ⟨l, n⟩ listed
  obtain ⟨_, rfl, positive⟩ := Tally.mem_toList.1 listed
  exact absurd positive (Nat.lt_irrefl 0)

end Trail

namespace SearchState

open Trail

/-- Propagation from the state comes to a fixpoint that leaves something to decide and to satisfy. -/
structure Branches (f : Formula) (pureLiterals : Bool) (s : SearchState) (p : Progress) :
    Prop where
  propagated : Progress.propagate f pureLiterals ⟨s.trail, s.stats⟩ = (.ok .fixpoint, p)
  incomplete : p.trail.isComplete = false
  unsatisfied : p.trail.allSatisfied f.clauses = .ok false

namespace Branches

variable {f : Formula} {h : Heuristic} {pureLiterals : Bool} {start : Trail} {s : SearchState}
  {p : Progress} {c : Clause}

theorem coherent (branches : s.Branches f pureLiterals p)
    (co : Coherent f.numVariables s.trail) : Coherent f.numVariables p.trail :=
  co.grows (Progress.grows_of_propagate (p := ⟨s.trail, s.stats⟩) branches.propagated)

theorem status (branches : s.Branches f pureLiterals p) (co : Coherent f.numVariables s.trail)
    (hc : c ∈ f.unsatisfied p.trail) :
    p.trail.clauseStatus c = .ok .undetermined ∧ 2 ≤ (p.trail.openLiterals c).length := by
  obtain ⟨_, settled⟩ :=
    Progress.reduces_of_propagate (p := ⟨s.trail, s.stats⟩) co branches.propagated
  exact (branches.coherent co).status_of_settles hc (settled c (Formula.mem_unsatisfied.1 hc).1)

theorem exists_open (branches : s.Branches f pureLiterals p)
    (co : Coherent f.numVariables s.trail) :
    ∃ c ∈ f.unsatisfied p.trail, ∃ l ∈ c, p.trail.value (Literal.var l) = none := by
  obtain ⟨c, hc⟩ := (branches.coherent co).exists_mem_unsatisfied branches.unsatisfied
  obtain ⟨_, long⟩ := branches.status co hc
  obtain ⟨l, hl⟩ := List.exists_mem_of_length_pos (Nat.lt_of_lt_of_le Nat.two_pos long)
  obtain ⟨hl, fresh⟩ := mem_openLiterals.1 hl
  exact ⟨c, hc, l, hl, fresh⟩

/-- No clause that is left is shorter than two. -/
theorem occurrences_short (branches : s.Branches f pureLiterals p)
    (co : Coherent f.numVariables s.trail) {k : Int} (short : k < 2) :
    p.trail.occurrences f.clauses (some k) = .ok (p.trail.tally []) := by
  have none_ : ((f.unsatisfied p.trail).map p.trail.openLiterals).filter
      (fun c => (c.length : Int) == k) = [] := by
    rw [List.filter_eq_nil_iff]
    intro ls hls same
    obtain ⟨c, hc, rfl⟩ := List.mem_map.1 hls
    have long := (branches.status co hc).2
    have := beq_iff_eq.1 same
    omega
  rw [(branches.coherent co).occurrences_some_eq, none_, List.flatten_nil]

theorem count_neg_pos_iff (branches : s.Branches f true p)
    (co : Coherent f.numVariables s.trail) (l : Literal) :
    0 < (p.trail.tally (p.trail.openOccurrences f.clauses)).count l ↔
      0 < (p.trail.tally (p.trail.openOccurrences f.clauses)).count (-l) := by
  by_cases zero : l = 0
  · -- 0 is not a literal, but a tally can be asked for it.
    rw [zero, Int.neg_zero]
  · have complement : -l ≠ 0 := Int.neg_ne_zero.2 zero
    have both (k : Literal) (occurs : k ∈ p.trail.openOccurrences f.clauses) :=
      Progress.neg_mem_openOccurrences (p := ⟨s.trail, s.stats⟩) co branches.propagated occurs
    have back := both (-l)
    rw [Int.neg_neg] at back
    rw [tally, Tally.count_pos_iff zero, Tally.count_pos_iff complement, Literal.var_neg]
    exact and_congr_right fun _ => ⟨both l, back⟩

theorem exists_step (branches : s.Branches f pureLiterals p) (co : Coherent f.numVariables start)
    (sound : Sound f start s) :
    ∃ v b u, h.choose f p.trail = .ok (v, b) ∧
      s.step f h pureLiterals start.size = .next u ∧
      u.trail.chronological = p.trail.chronological ++ [⟨v, b, .decision⟩] := by
  have coP := branches.coherent (co.grows sound.grown)
  have scanned := coP.allSatisfied_eq fun c hc l hl => Formula.var_le_of_mem (f := f) hc hl
  rw [branches.unsatisfied, Except.ok.injEq] at scanned
  have taken := step_transition h pureLiterals co sound
  -- Of the transitions only a branch starts from a fixpoint with something left to do.
  generalize s.step f h pureLiterals start.size = step at taken
  cases taken with
  | found propagated finished =>
      cases branches.propagated.symm.trans propagated
      rcases finished with complete | satisfied
      · cases branches.incomplete.symm.trans complete
      · cases scanned.trans satisfied
  | branched propagated _ _ chosen decided _ _ =>
      cases branches.propagated.symm.trans propagated
      exact ⟨_, _, _, chosen, rfl, chronological_of_assign decided⟩
  | retreated propagated _ => cases branches.propagated.symm.trans propagated

end Branches

/-- Wherever the search branches, each clause that is not satisfied has two open literals or more,
so nothing occurs in clauses shorter than that, while the tally of all of them is not empty. The
choices that go by frequency find their literal or variable there and do not fall back to the first
open variable. Where pure literals are eliminated, literals occur together with their complements. -/
theorem branches_among_occurrences {f : Formula} {h : Heuristic} {pureLiterals : Bool}
    {start : Trail} {stats : Stats} {s : SearchState} {p : Progress}
    (grown : Grows (.empty f.numVariables) start)
    (reached : Reaches f h pureLiterals start.size (.start start stats) s)
    (branches : s.Branches f pureLiterals p) :
    (∃ v b u, h.choose f p.trail = .ok (v, b) ∧
      s.step f h pureLiterals start.size = .next u ∧
      u.trail.chronological = p.trail.chronological ++ [⟨v, b, .decision⟩]) ∧
    (∀ c ∈ f.unsatisfied p.trail,
      p.trail.clauseStatus c = .ok .undetermined ∧ 2 ≤ (p.trail.openLiterals c).length) ∧
    (∃ τ, p.trail.occurrences f.clauses none = .ok τ ∧ τ.toList ≠ [] ∧
      (∃ l, τ.topLiteral? = some l ∧
        Heuristic.mostLiteral.choose f p.trail = .ok (Literal.var l, Literal.isPositive l) ∧
        ∃ c ∈ f.unsatisfied p.trail, l ∈ p.trail.openLiterals c) ∧
      (∃ v b, τ.topVar? = some v ∧
        Heuristic.mostVariable.choose f p.trail = .ok (v, true) ∧
        Heuristic.polarity.choose f p.trail = .ok (v, b) ∧
        ∃ c ∈ f.unsatisfied p.trail, ∃ l ∈ p.trail.openLiterals c, Literal.var l = v) ∧
      (pureLiterals = true → ∀ l, 0 < τ.count l ↔ 0 < τ.count (-l))) ∧
    ∀ k < 2, ∃ τ, p.trail.occurrences f.clauses (some k) = .ok τ ∧ τ.toList = [] := by
  have co := (coherent_empty f.numVariables).grows grown
  have sound := reached.sound co (sound_start f start stats)
  have coS := co.grows sound.grown
  have coP := branches.coherent coS
  have left := branches.exists_open coS
  have among {l : Literal} (occurs : l ∈ p.trail.openOccurrences f.clauses) :
      ∃ c ∈ f.unsatisfied p.trail, l ∈ p.trail.openLiterals c := by
    obtain ⟨c, hc, hl, fresh⟩ := Formula.mem_openOccurrences_iff.1 occurs
    exact ⟨c, hc, mem_openLiterals.2 ⟨hl, fresh⟩⟩
  refine ⟨branches.exists_step co sound, fun c => branches.status coS, ?_, ?_⟩
  · obtain ⟨l, occurs, top, chosen, _⟩ := Heuristic.topLiteral?_spec coP left
    obtain ⟨v, ⟨m, occursM, var⟩, topVar, chosenVar, _⟩ := Heuristic.topVar?_spec coP left
    have positive : 1 ≤ v := var ▸ (isOpen_of_mem_openOccurrences occursM).1
    obtain ⟨b, chosenSign, _⟩ := Heuristic.choosePolarity_spec chosenVar
    obtain ⟨c, hc, hm⟩ := among occursM
    refine ⟨_, coP.occurrences_eq, coP.toList_ne_nil occurs, ⟨l, top, chosen, among occurs⟩,
      ⟨v, b, topVar, chosenVar, chosenSign, c, hc, m, hm, var⟩, ?_⟩
    rintro rfl
    exact branches.count_neg_pos_iff coS
  · intro k short
    exact ⟨_, branches.occurrences_short coS short, toList_tally_nil p.trail⟩

theorem branches_among_occurrences_paired :
    let f : Formula := ⟨3, [[1, 2], [3], [-1, -2]], by decide, by decide⟩
    let s : SearchState := .start (.empty 3) {}
    let p : Progress :=
      ⟨⟨3, #[none, none, none, some true], [⟨3, true, .forced⟩], 0⟩, { propagations := 1 }⟩
    s.Branches f true p ∧
      ∃ τ, p.trail.occurrences f.clauses none = .ok τ ∧ τ.toList ≠ [] ∧
        ∀ l, 0 < τ.count l ↔ 0 < τ.count (-l) := by
  intro f s p
  have unit : Progress.unitPropagate f ⟨s.trail, s.stats⟩ = (.ok .fixpoint, p) := by
    with_unfolding_all rfl
  have settled : p.eliminatePure f = (.ok 0, p) := by
    dsimp only [f, p]
    rfl
  have propagated : Progress.propagate f true ⟨s.trail, s.stats⟩ = (.ok .fixpoint, p) := by
    rw [Progress.propagate_eq, unit]
    simp only [settled, if_true]
  have branches : s.Branches f true p := ⟨propagated, rfl, rfl⟩
  have grown : Grows (.empty f.numVariables) s.trail := .refl
  obtain ⟨_, _, ⟨τ, counted, nonempty, _, _, paired⟩, _⟩ :=
    branches_among_occurrences (h := .order) grown .refl branches
  exact ⟨branches, τ, counted, nonempty, paired rfl⟩

end SearchState

end Clausal

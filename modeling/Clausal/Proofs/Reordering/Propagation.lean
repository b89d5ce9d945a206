import Clausal.Proofs.Propagation.Fixpoint
import Clausal.Proofs.Reordering.Clauses

/-!
Propagation on two formulas with the same clauses. From trails with the same values it ends alike on
both: in a conflict, or in a fixpoint with the same values again. Up to a fixpoint it forces equally
many literals; up to a conflict it need not.
-/
namespace Clausal

/-- Equal counters, except that propagations may differ once there has been a conflict. -/
structure Stats.Matches (a b : Stats) : Prop where
  rest : { a with propagations := b.propagations } = b
  propagations : a.conflicts = 0 → a.propagations = b.propagations

structure Progress.Matches (p q : Progress) : Prop where
  values : p.trail.value = q.trail.value
  stats : p.stats.Matches q.stats

namespace Stats.Matches

variable {a b : Stats}

theorem refl (a : Stats) : Matches a a := ⟨rfl, fun _ => rfl⟩

theorem addPureLiterals (h : Matches a b) (n : Nat) :
    Matches (a.addPureLiterals n) (b.addPureLiterals n) :=
  ⟨congrArg (Stats.addPureLiterals · n) h.rest, h.propagations⟩

theorem addDecision (h : Matches a b) : Matches a.addDecision b.addDecision :=
  ⟨congrArg Stats.addDecision h.rest, h.propagations⟩

theorem reach (h : Matches a b) (depth : Nat) : Matches (a.reach depth) (b.reach depth) :=
  ⟨congrArg (Stats.reach · depth) h.rest, h.propagations⟩

theorem addRetreat (h : Matches a b) (decisions backtracks : Nat) :
    Matches
      { a with decisions := a.decisions + decisions, backtracks := a.backtracks + backtracks }
      { b with decisions := b.decisions + decisions, backtracks := b.backtracks + backtracks } where
  rest := by rw [← h.rest]
  propagations := h.propagations

end Stats.Matches

namespace Trail

theorem Asserts.of_value {t u : Trail} (h : ∀ l, t.Asserts l → u.Asserts l) {v : Nat} {b : Bool}
    (positive : 1 ≤ v) (held : t.value v = some b) : u.value v = some b :=
  (asserts_ofVar positive b).1 (h _ ((asserts_ofVar positive b).2 held))

theorem Coherent.value_eq {n : Nat} {t u : Trail} (coT : Coherent n t) (coU : Coherent n u)
    (same : ∀ l, t.Asserts l ↔ u.Asserts l) : t.value = u.value := by
  funext v
  by_cases positive : 1 ≤ v
  · apply Option.ext
    intro b
    exact ⟨Asserts.of_value (fun l => (same l).1) positive,
      Asserts.of_value (fun l => (same l).2) positive⟩
  · have zero : v = 0 := by omega
    rw [zero, coT.value_zero, coU.value_zero]

theorem value_eq_of_forceAll {ls : List Literal} {s t u v : Trail} (values : s.value = t.value)
    (hs : s.forceAll ls = (.ok (), u)) (ht : t.forceAll ls = (.ok (), v)) : u.value = v.value := by
  induction ls generalizing s t with
  | nil =>
      cases hs
      cases ht
      exact values
  | cons l ls ih =>
      rw [forceAll] at hs ht
      split at hs
      · cases hs
      · rename_i s' forcedS
        split at ht
        · cases ht
        · rename_i t' forcedT
          exact ih (value_eq_of_assign values forcedS forcedT) hs ht

end Trail

namespace Progress

open Trail

variable {f g : Formula} {pureLiterals : Bool} {p q p' q' : Progress}

theorem Deduced.matches_conflict (left : Deduced f p p') (right : Deduced g q q')
    (h : p.stats.Matches q.stats) : p'.stats.addConflict.Matches q'.stats.addConflict where
  rest := by
    rw [left.stats, right.stats, ← h.rest]
    rfl
  propagations none_ := absurd none_ (Nat.succ_ne_zero _)

theorem Deduced.matches_fixpoint (left : Deduced f p p') (right : Deduced g q q')
    (h : p.stats.Matches q.stats)
    (size : p.trail.size = q.trail.size) (size' : p'.trail.size = q'.trail.size) :
    p'.stats.Matches q'.stats where
  rest := by
    rw [left.stats, right.stats, ← h.rest]
  propagations none_ := by
    rw [left.stats] at none_ ⊢
    rw [right.stats]
    exact congrArg₂ (· + ·) (h.propagations none_) (by rw [size, size'])

/-- Unit propagation derives the same literals, however the clauses are written. -/
theorem unitPropagate_alike (same : f.SameClauses g) (coP : Coherent f.numVariables p.trail)
    (coQ : Coherent g.numVariables q.trail) (values : p.trail.value = q.trail.value) :
    ∃ outcome p' q', p.unitPropagate f = (.ok outcome, p') ∧
      q.unitPropagate g = (.ok outcome, q') ∧ Deduced f p p' ∧ Deduced g q q' ∧
      (outcome = .fixpoint → p'.trail.value = q'.trail.value) := by
  obtain ⟨outcome, p', endP, left, conflictP, derivedP⟩ := unitPropagate_derives coP
  obtain ⟨outcome', q', endQ, right, conflictQ, derivedQ⟩ := unitPropagate_derives coQ
  have conflicts : outcome = .conflict ↔ outcome' = .conflict := by
    rw [conflictP, conflictQ]
    exact ⟨same.refutes values, same.symm.refutes values.symm⟩
  have ends : outcome = outcome' := by
    cases outcome with
    | conflict => exact (conflicts.1 rfl).symm
    | fixpoint =>
        cases outcome' with
        | conflict => exact conflicts.2 rfl
        | fixpoint => rfl
  subst ends
  refine ⟨outcome, p', q', endP, endQ, left, right, fun ended => ?_⟩
  refine (left.coherent coP).value_eq (same.count ▸ right.coherent coQ) fun l => ?_
  rw [derivedP ended, derivedQ ended]
  exact ⟨same.derives values, same.symm.derives values.symm⟩

theorem unitPropagate_matches (same : f.SameClauses g) (coP : Coherent f.numVariables p.trail)
    (coQ : Coherent g.numVariables q.trail) (h : p.Matches q) :
    ∃ outcome p' q', p.unitPropagate f = (.ok outcome, p') ∧
      q.unitPropagate g = (.ok outcome, q') ∧
      Coherent f.numVariables p'.trail ∧ Coherent g.numVariables q'.trail ∧
      (outcome = .conflict → p'.stats.addConflict.Matches q'.stats.addConflict) ∧
      (outcome = .fixpoint → p'.Matches q') := by
  obtain ⟨outcome, p', q', endP, endQ, left, right, values⟩ :=
    unitPropagate_alike same coP coQ h.values
  have coP' := left.coherent coP
  have coQ' := right.coherent coQ
  refine ⟨outcome, p', q', endP, endQ, coP', coQ', fun _ => left.matches_conflict right h.stats,
    fun ended => ⟨values ended, ?_⟩⟩
  exact left.matches_fixpoint right h.stats (coP.size_eq (same.count ▸ coQ) h.values)
    (coP'.size_eq (same.count ▸ coQ') (values ended))

theorem eliminatePure_matches (same : f.SameClauses g) (coP : Coherent f.numVariables p.trail)
    (coQ : Coherent g.numVariables q.trail) (h : p.Matches q) :
    ∃ n p' q', p.eliminatePure f = (.ok n, p') ∧ q.eliminatePure g = (.ok n, q') ∧
      p'.Matches q' := by
  obtain ⟨t, forcedP, endP⟩ := eliminatePure_spec coP
  obtain ⟨u, forcedQ, endQ⟩ := eliminatePure_spec coQ
  rw [← same.pureLiterals_eq coP coQ h.values] at forcedQ endQ
  exact ⟨_, _, _, endP, endQ, value_eq_of_forceAll h.values forcedP forcedQ,
    h.stats.addPureLiterals _⟩

theorem propagate_matches (pureLiterals : Bool) (same : f.SameClauses g)
    (coP : Coherent f.numVariables p.trail)
    (coQ : Coherent g.numVariables q.trail) (h : p.Matches q) :
    ∃ outcome p' q', p.propagate f pureLiterals = (.ok outcome, p') ∧
      q.propagate g pureLiterals = (.ok outcome, q') ∧
      (outcome = .conflict → p'.stats.addConflict.Matches q'.stats.addConflict) ∧
      (outcome = .fixpoint → p'.Matches q') := by
  fun_induction propagate f pureLiterals p generalizing q with
  | case1 p p' unit on r eliminated =>
      obtain ⟨_, _, q', unit', unitQ, coP', coQ', _, matched⟩ :=
        unitPropagate_matches same coP coQ h
      cases unit.symm.trans unit'
      obtain ⟨_, _, r', eliminated', eliminatedQ, matched'⟩ :=
        eliminatePure_matches same coP' coQ' (matched rfl)
      cases eliminated.symm.trans eliminated'
      refine ⟨.fixpoint, r, r', rfl, ?_, by simp, fun _ => matched'⟩
      rw [propagate_eq, unitQ]
      simp only [on, eliminatedQ, if_true]
  | case2 p p' unit on n r eliminated ih =>
      obtain ⟨_, _, q', unit', unitQ, coP', coQ', _, matched⟩ :=
        unitPropagate_matches same coP coQ h
      cases unit.symm.trans unit'
      obtain ⟨_, _, r', eliminated', eliminatedQ, matched'⟩ :=
        eliminatePure_matches same coP' coQ' (matched rfl)
      cases eliminated.symm.trans eliminated'
      rw [propagate_eq g, unitQ]
      simp only [on, eliminatedQ, if_true]
      exact on ▸ ih (coP'.grows (grows_of_eliminatePure eliminated))
        (coQ'.grows (grows_of_eliminatePure eliminatedQ)) matched'
  | case3 p p' unit on e r eliminated =>
      obtain ⟨deduced, _⟩ := deduced_of_unitPropagate coP unit
      obtain ⟨_, _, eliminated'⟩ := eliminatePure_spec (deduced.coherent coP)
      cases eliminated.symm.trans eliminated'
  | case4 p p' unit off =>
      obtain ⟨_, _, q', unit', unitQ, _, _, _, matched⟩ := unitPropagate_matches same coP coQ h
      cases unit.symm.trans unit'
      refine ⟨.fixpoint, p', q', rfl, ?_, by simp, fun _ => matched rfl⟩
      rw [propagate_eq, unitQ]
      simp only [if_neg off]
  | case5 p p' unit =>
      obtain ⟨_, _, q', unit', unitQ, _, _, counted, _⟩ := unitPropagate_matches same coP coQ h
      cases unit.symm.trans unit'
      refine ⟨.conflict, p', q', rfl, ?_, fun _ => counted rfl, by simp⟩
      rw [propagate_eq, unitQ]
  | case6 p e p' unit =>
      obtain ⟨_, _, unit', _⟩ := unitPropagate_spec coP
      cases unit.symm.trans unit'

end Progress

end Clausal

import Clausal.Proofs.Propagation.Forcing
import Clausal.Proofs.Propagation.Stages

/-!
What a propagation comes to. It adds forced entries, each of which is counted. A conflict means that
no model agrees with the trail it started on. At a fixpoint no clause is unit or falsified, nothing
is pure any more, and a model of the start turns into a model of the end with the trail laid over
it, which changes it at variables of eliminated literals only.
-/
namespace Clausal.Progress

open Trail

variable {f : Formula} {p q : Progress} {l : Literal} {ν : Nat → Bool}

theorem neg_mem_openOccurrences (co : Coherent f.numVariables p.trail)
    (h : p.propagate f true = (.ok .fixpoint, q)) (occurs : l ∈ q.trail.openOccurrences f.clauses) :
    -l ∈ q.trail.openOccurrences f.clauses := by
  obtain ⟨_, _, deduced, _, _, more, none_⟩ := stages_of_fixpoint co h
  by_contra absent
  have pure := (mem_pureLiterals ((deduced.coherent co).grows more)).2 ⟨occurs, absent⟩
  rw [none_] at pure
  cases pure

/-- A model agrees with all that unit clauses force, so only an elimination can change it. -/
theorem purifies_of_override_ne (co : Coherent f.numVariables p.trail)
    (h : p.propagate f true = (.ok .fixpoint, q)) (agrees : p.trail.Agrees ν)
    (model : f.holds ν = true) {v : Nat} (changed : q.trail.override ν v ≠ ν v) :
    p.Purifies f v := by
  obtain ⟨m, unit, deduced, settled, exhausted, more, _⟩ := stages_of_fixpoint co h
  have agreesM := deduced.agrees agrees model co
  have after : q.trail.value v ≠ none := by
    intro fresh
    exact changed (by rw [override, fresh, Option.getD_none])
  refine purifies_of_exhaustPure unit (deduced.coherent co) settled exhausted ?_ after
  cases held : m.trail.value v with
  | none => rfl
  | some b =>
      refine absurd ?_ changed
      rw [override, more.value_eq_some held, Option.getD_some, agreesM v b held]

/-- Propagation from any trail over the variables of the formula adds forced entries only, as many as
it counts. After a conflict no model agrees with the trail that it started on. At a fixpoint no rule
applies any more, and with the trail laid over it a model that agreed with the start stays a model;
only eliminations of pure literals can change it. -/
theorem propagate_outcome (grown : Grows (.empty f.numVariables) p.trail) (pureLiterals : Bool) :
    ∃ outcome q, p.propagate f pureLiterals = (.ok outcome, q) ∧
      (∃ added m n, q.trail.chronological = p.trail.chronological ++ added ∧
        (∀ e ∈ added, e.kind = .forced) ∧ added.length = m + n ∧
        q.stats = { p.stats with
          propagations := p.stats.propagations + m
          pureLiterals := p.stats.pureLiterals + n }) ∧
      (outcome = .conflict → ∀ ν, p.trail.Agrees ν → f.holds ν = false) ∧
      (outcome = .fixpoint →
        (∀ c ∈ f.clauses, q.trail.Settles c) ∧
        (pureLiterals = true → ∀ l ∈ q.trail.openOccurrences f.clauses,
          -l ∈ q.trail.openOccurrences f.clauses) ∧
        (∀ ν, p.trail.Agrees ν → f.holds ν = true →
          f.holds (q.trail.override ν) = true ∧
            ∀ v, q.trail.override ν v ≠ ν v → pureLiterals = true ∧ p.Purifies f v) ∧
        ((∃ ν, p.trail.Agrees ν ∧ f.holds ν = true) ↔
          ∃ ν, q.trail.Agrees ν ∧ f.holds ν = true)) := by
  have co := (coherent_empty f.numVariables).grows grown
  obtain ⟨outcome, q, propagated, conflict, fixpoint⟩ := propagate_spec pureLiterals p co
  obtain ⟨follows, m, n, size, counted⟩ := forces_of_propagate propagated
  obtain ⟨added, entries, forced⟩ := follows.forced
  refine ⟨outcome, q, propagated, ⟨added, m, n, entries, forced, ?_, counted⟩, ?_, ?_⟩
  · have lengths := congrArg List.length entries
    rw [List.length_append, length_chronological, length_chronological] at lengths
    omega
  · intro ended ν agrees
    exact Bool.eq_false_iff.2 (conflict ended ν agrees)
  · rintro rfl
    obtain ⟨reduced, settled⟩ := fixpoint rfl
    refine ⟨settled, ?_, ?_, ?_, ?_⟩
    · rintro rfl l occurs
      exact neg_mem_openOccurrences co propagated occurs
    · intro ν agrees model
      refine ⟨reduced.holds_override ν agrees model, fun v changed => ?_⟩
      cases pureLiterals with
      | false => exact absurd (by rw [override_of_agrees (reduced.agrees rfl ν agrees model)]) changed
      | true => exact ⟨rfl, purifies_of_override_ne co propagated agrees model changed⟩
    · rintro ⟨ν, agrees, model⟩
      exact ⟨_, agrees_override q.trail ν, reduced.holds_override ν agrees model⟩
    · rintro ⟨ν, agrees, model⟩
      exact ⟨ν, reduced.grown.agrees agrees, model⟩

theorem propagate_outcome_moved :
    let f : Formula := ⟨5, [[-1, 2], [3, 4], [-4, 5], [4, -5]], by decide, by decide⟩
    let p : Progress :=
      ⟨⟨5, #[none, some true, none, none, none, none], [⟨1, true, .decision⟩], 1⟩, {}⟩
    let ν : Nat → Bool := fun v => v != 3
    Grows (.empty f.numVariables) p.trail ∧ p.trail.Agrees ν ∧ f.holds ν = true ∧
      ∃ q, p.propagate f true = (.ok .fixpoint, q) ∧
        q.trail.chronological = [⟨1, true, .decision⟩, ⟨2, true, .forced⟩, ⟨3, true, .forced⟩] ∧
        f.holds (q.trail.override ν) = true ∧ p.Purifies f 3 := by
  intro f p ν
  have decided : (Trail.empty f.numVariables).assign 1 true .decision = .ok p.trail := rfl
  have grown : Grows (.empty f.numVariables) p.trail := .assign .refl decided
  have co := (coherent_empty f.numVariables).grows grown
  have agrees : p.trail.Agrees ν := by
    rw [co.agrees_iff]
    simp [p, ν]
  have model : f.holds ν = true := by decide
  let forced : Progress :=
    ⟨⟨5, #[none, some true, some true, none, none, none],
        [⟨2, true, .forced⟩, ⟨1, true, .decision⟩], 1⟩, { propagations := 1 }⟩
  let after : Progress :=
    ⟨⟨5, #[none, some true, some true, some true, none, none],
        [⟨3, true, .forced⟩, ⟨2, true, .forced⟩, ⟨1, true, .decision⟩], 1⟩,
      { propagations := 1, pureLiterals := 1 }⟩
  have unit : p.unitPropagate f = (.ok .fixpoint, forced) := by with_unfolding_all rfl
  -- Evaluation is quick only where the local definitions are spelled out.
  have eliminated : forced.eliminatePure f = (.ok 1, after) := by
    dsimp only [f, forced, after]
    rfl
  have settled : after.unitPropagate f = (.ok .fixpoint, after) := by with_unfolding_all rfl
  have exhausted : after.eliminatePure f = (.ok 0, after) := by
    dsimp only [f, after]
    rfl
  have propagated : p.propagate f true = (.ok .fixpoint, after) := by
    rw [propagate_eq, unit]
    simp only [eliminated, if_true]
    rw [propagate_eq, settled]
    simp only [exhausted, if_true]
  obtain ⟨outcome, q, propagated', _, _, fixpoint⟩ := propagate_outcome grown true
  cases propagated.symm.trans propagated'
  obtain ⟨_, _, models, _⟩ := fixpoint rfl
  obtain ⟨still, changes⟩ := models ν agrees model
  exact ⟨grown, agrees, model, after, propagated, rfl, still, (changes 3 (by decide)).2⟩

end Clausal.Progress

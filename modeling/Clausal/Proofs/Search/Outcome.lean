import Clausal.Proofs.Search.Completeness

/-!
What a search from any trail over the variables of a formula comes to. It finds a model that extends
the trail if there is one; otherwise it hands the trail back as it was.
-/
namespace Clausal.Formula

variable {f : Formula} {t : Trail}

theorem keys_completion (f : Formula) (t : Trail) :
    (f.completion t).map Prod.fst = f.vars.map fun (v : Nat) => (v : Int) := by
  rw [completion, List.map_map]
  rfl

theorem valuation_completion {v : Nat} (h : v ∈ f.vars) :
    (f.completion t).valuation v = some ((t.value v).getD true) := by
  have distinct : ((f.completion t).map Prod.fst).Nodup := by
    rw [keys_completion]
    exact List.Nodup.map (fun _ _ => Int.ofNat.inj) List.nodup_range'
  rw [Assignment.valuation, Assignment.lookup_eq_some_iff distinct]
  exact List.mem_map.2 ⟨v, h, rfl⟩

theorem valuation_completion_of_value (co : Trail.Coherent f.numVariables t) {v : Nat} {b : Bool}
    (h : t.value v = some b) : (f.completion t).valuation v = some b := by
  obtain ⟨e, he, rfl, _⟩ := (co.value_iff v b).1 h
  rw [valuation_completion (mem_vars.2 (co.inRange e he)), h, Option.getD_some]

theorem satisfiedBy_completion (co : Trail.Coherent f.numVariables t)
    (h : f.satisfiedBy t.value = true) : f.satisfiedBy (f.completion t).valuation = true := by
  refine satisfiedBy_iff.2 fun c hc => Clause.satisfiedBy_iff.2 ?_
  obtain ⟨l, hl, asserted⟩ := Clause.satisfiedBy_iff.1 (satisfiedBy_iff.1 h c hc)
  exact ⟨l, hl, valuation_completion_of_value co asserted⟩

/-- A formula that a partial valuation satisfies has a model, which agrees with the valuation. -/
theorem holds_of_satisfiedBy {α : Nat → Option Bool} (h : f.satisfiedBy α = true) :
    f.holds (fun v => (α v).getD true) = true := by
  refine holds_iff.2 fun c hc => ?_
  obtain ⟨l, hl, asserted⟩ := Clause.satisfiedBy_iff.1 (satisfiedBy_iff.1 h c hc)
  exact ⟨l, hl, Literal.holds_iff.2 (by simp [asserted])⟩

/-- A search ends refuted on the trail it started on, or with a model that extends that trail. -/
theorem search_spec (co : Trail.Coherent f.numVariables t) (h : Heuristic) (pureLiterals : Bool)
    (stats : Stats) :
    ∃ s, f.search h pureLiterals t stats = (.ok none, s) ∧ s.trail = t ∧
        (∀ ν, t.Agrees ν → f.holds ν = false) ∨
      f.search h pureLiterals t stats = (.ok (some (f.completion s.trail)), s) ∧
        t.Grows s.trail ∧ f.satisfiedBy s.trail.value = true := by
  obtain ⟨last, s, reached, sound, ⟨ended, found⟩ | ⟨ended, refuted⟩⟩ :=
    search_ends h pureLiterals co stats
  · exact ⟨s, .inr ⟨found, SearchState.found_spec co sound ended⟩⟩
  · obtain ⟨restored, _⟩ := SearchState.refuted_spec (ν := fun _ => true) co sound ended
    refine ⟨s, .inl ⟨refuted, restored, fun ν agrees => ?_⟩⟩
    by_contra model
    rw [Bool.not_eq_false] at model
    obtain ⟨μ, modelμ, covered, _⟩ := reached.covers co (SearchState.sound_start f t stats) model
      (SearchState.covers_start agrees stats)
    exact (SearchState.refuted_spec co sound ended).2 modelμ covered

theorem of_search_found {h : Heuristic} {pureLiterals : Bool} {stats : Stats} {s : SearchState}
    (co : Trail.Coherent f.numVariables t)
    (found : f.search h pureLiterals t stats = (.ok (some (f.completion s.trail)), s)) :
    Trail.Coherent f.numVariables s.trail ∧ f.satisfiedBy s.trail.value = true := by
  obtain ⟨u, ⟨refuted, _⟩ | ⟨found', grown, satisfied⟩⟩ := search_spec co h pureLiterals stats
  · cases found.symm.trans refuted
  · obtain ⟨_, rfl⟩ := Prod.mk.inj (found.symm.trans found')
    exact ⟨co.grows grown, satisfied⟩

/-- A search from any trail over the variables of the formula finds a model that extends the trail
exactly when there is one. If there is none, the trail comes back as it was. -/
theorem search_outcome (grown : Trail.Grows (.empty f.numVariables) t) (h : Heuristic)
    (pureLiterals : Bool) (stats : Stats) :
    ∃ outcome s, f.search h pureLiterals t stats = (.ok outcome, s) ∧
      (outcome = none ↔ ¬∃ ν, (∀ e ∈ t.entries, ν e.var = e.value) ∧ f.holds ν = true) ∧
      (outcome = none → s.trail = t) ∧
      ∀ model, outcome = some model →
        t.chronological <+: s.trail.chronological ∧
        (∀ e ∈ s.trail.entries, model.valuation e.var = some e.value) ∧
        model.map Prod.fst = (List.range' 1 f.numVariables).map Nat.cast ∧
        f.satisfiedBy model.valuation = true := by
  have co := (Trail.coherent_empty f.numVariables).grows grown
  obtain ⟨s, ⟨refuted, restored, none_⟩ | ⟨found, grownS, satisfied⟩⟩ :=
    search_spec co h pureLiterals stats
  · refine ⟨none, s, refuted, ⟨fun _ => ?_, fun _ => rfl⟩, fun _ => restored, nofun⟩
    rintro ⟨ν, agrees, model⟩
    rw [none_ ν (co.agrees_iff.2 agrees)] at model
    cases model
  · have coS := co.grows grownS
    refine ⟨some (f.completion s.trail), s, found, ⟨nofun, fun none_ => ?_⟩, nofun, ?_⟩
    · refine absurd ⟨_, ?_, holds_of_satisfiedBy satisfied⟩ none_
      intro e he
      have held := (co.value_iff e.var e.value).2 ⟨e, he, rfl, rfl⟩
      simp [grownS.value_eq_some held]
    · rintro model ⟨⟩
      refine ⟨grownS.chronological_prefix, ?_, keys_completion f s.trail,
        satisfiedBy_completion coS satisfied⟩
      intro e he
      exact valuation_completion_of_value coS ((coS.value_iff e.var e.value).2 ⟨e, he, rfl, rfl⟩)

theorem search_outcome_dead_end :
    let f : Formula := ⟨2, [[1, 2], [-1, 2]], by decide, by decide⟩
    let t : Trail := ⟨2, #[none, none, some false], [⟨2, false, .decision⟩], 1⟩
    Trail.Grows (.empty f.numVariables) t ∧
      ∃ s, f.search .order true t {} = (.ok none, s) ∧ s.trail = t := by
  intro f t
  have decided : (Trail.empty f.numVariables).assign 2 false .decision = .ok t := rfl
  have grown : Trail.Grows (.empty f.numVariables) t := .assign .refl decided
  obtain ⟨outcome, s, found, refuted, restored, _⟩ := search_outcome grown .order true {}
  have dead : outcome = none := by
    rw [refuted]
    rintro ⟨ν, agrees, model⟩
    have denied : ν 2 = false := agrees ⟨2, false, .decision⟩ List.mem_cons_self
    revert model
    cases first : ν 1 <;>
      simp [f, holds, Clause.holds, Literal.holds, Literal.under, Literal.var,
        Literal.isPositive, denied, first]
  exact ⟨grown, s, dead ▸ found, restored dead⟩

end Clausal.Formula

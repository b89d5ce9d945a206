import Clausal.Proofs.Search.Run

/-!
The search misses no model. Every model that agrees with the starting trail leaves a trace while the
search goes on: some model agrees with the current trail or with a value that a branch point still
has to try. So the search gives up only where no model is left, with the trail as it was, and where
it finds a model the trail satisfies every clause.
-/
namespace Clausal

namespace SearchState

/-- The branch point has a value left under which the valuation would be met. -/
def Awaits (ν : Nat → Bool) (point : Trail × Frame) : Prop :=
  ∃ b, point.2.pending = some b ∧ point.1.Agrees ν ∧ ν point.2.var = b

/-- The valuation lies ahead of the search. -/
def Covers (ν : Nat → Bool) (s : SearchState) : Prop :=
  s.trail.Agrees ν ∨ ∃ point ∈ s.points, Awaits ν point

variable {f : Formula} {h : Heuristic} {pureLiterals : Bool} {start : Trail} {s u : SearchState}
  {ν : Nat → Bool}

theorem covers_start {t : Trail} (agrees : t.Agrees ν) (stats : Stats) :
    Covers ν (.start t stats) :=
  .inl agrees

/-- After a conflict only a branch point can lead to a model. -/
theorem awaits_of_conflict {p : Progress} (co : Trail.Coherent f.numVariables s.trail)
    (propagated : Progress.propagate f pureLiterals ⟨s.trail, s.stats⟩ = (.ok .conflict, p))
    (model : f.holds ν = true) (covered : Covers ν s) : ∃ point ∈ s.points, Awaits ν point := by
  refine covered.resolve_left fun agrees => ?_
  exact Progress.not_holds_of_propagate (p := ⟨s.trail, s.stats⟩) co propagated agrees model

/-- A step leaves a model ahead. It may be another one, but only where pure literals are
eliminated. -/
theorem covers_step (co : Trail.Coherent f.numVariables start) (sound : Sound f start s)
    (taken : s.step f h pureLiterals start.size = .next u) (model : f.holds ν = true)
    (covered : Covers ν s) :
    ∃ μ, f.holds μ = true ∧ Covers μ u ∧ (pureLiterals = false → μ = ν) := by
  have coS := co.grows sound.grown
  cases transition_of_step co sound taken with
  | @branched p v b _ propagated _ _ _ decided after _ =>
      obtain ⟨reduced, _⟩ :=
        Progress.reduces_of_propagate (p := ⟨s.trail, s.stats⟩) coS propagated
      rcases covered with agrees | ⟨point, hp, awaits⟩
      · refine ⟨p.trail.override ν, reduced.holds_override ν agrees model, ?_, ?_⟩
        -- Propagation may have moved the model: with the trail laid over it, it agrees with the
        -- decision or with the value that is left.
        · have laid := Trail.agrees_override p.trail ν
          by_cases same : p.trail.override ν v = b
          · exact .inl ((Trail.agrees_assign_iff decided).2 ⟨laid, same⟩)
          · exact .inr ⟨_, after ▸ List.mem_cons_self, !b, rfl, laid, Bool.eq_not.2 same⟩
        · intro off
          exact Trail.override_of_agrees (reduced.agrees off ν agrees model)
      · exact ⟨ν, model, .inr ⟨point, after ▸ List.mem_cons_of_mem _ hp, awaits⟩, fun _ => rfl⟩
  | retreated propagated retreats =>
      obtain ⟨point, hp, awaits⟩ := awaits_of_conflict coS propagated model covered
      refine ⟨ν, model, ?_, fun _ => rfl⟩
      cases retreats with
      | @flipped _ inner outer below frame b split closed pending decided after _ =>
          rw [split, List.mem_append, List.mem_cons] at hp
          rcases hp with hp | rfl | hp
          · obtain ⟨c, open_, _⟩ := awaits
            rw [closed point hp] at open_
            cases open_
          · obtain ⟨c, open_, agrees, value⟩ := awaits
            cases pending.symm.trans open_
            exact .inl ((Trail.agrees_assign_iff decided).2 ⟨agrees, value⟩)
          · exact .inr ⟨point, after ▸ List.mem_cons_of_mem _ hp, awaits⟩

theorem Reaches.covers (co : Trail.Coherent f.numVariables start) (sound : Sound f start s)
    (reached : Reaches f h pureLiterals start.size s u) (model : f.holds ν = true)
    (covered : Covers ν s) :
    ∃ μ, f.holds μ = true ∧ Covers μ u ∧ (pureLiterals = false → μ = ν) := by
  induction reached with
  | refl => exact ⟨ν, model, covered, fun _ => rfl⟩
  | @next u w reached taken ih =>
      obtain ⟨μ, modelμ, coveredμ, sameμ⟩ := ih
      obtain ⟨κ, modelκ, coveredκ, sameκ⟩ :=
        covers_step co (reached.sound co sound) taken modelμ coveredμ
      exact ⟨κ, modelκ, coveredκ, fun off => (sameκ off).trans (sameμ off)⟩

/-- A search that gives up has no model ahead, and its trail is the one it started on. -/
theorem refuted_spec (co : Trail.Coherent f.numVariables start) (sound : Sound f start s)
    (ended : s.step f h pureLiterals start.size = .done .refuted u) :
    u.trail = start ∧ (f.holds ν = true → ¬Covers ν s) := by
  cases transition_of_step co sound ended with
  | @retreated p _ propagated retreats =>
      cases retreats with
      | refuted closed trail _ =>
          have grown : Trail.Grows s.trail p.trail := Progress.grows_of_propagate propagated
          constructor
          · rw [trail, (sound.grown.trans grown).rewind_eq (Nat.le_refl _), Trail.rewind_size]
          · intro model covered
            obtain ⟨point, hp, b, open_, _⟩ :=
              awaits_of_conflict (co.grows sound.grown) propagated model covered
            rw [closed point hp] at open_
            cases open_

/-- Where a search finds a model, the trail itself satisfies every clause. -/
theorem found_spec (co : Trail.Coherent f.numVariables start) (sound : Sound f start s)
    (ended : s.step f h pureLiterals start.size = .done .model u) :
    start.Grows u.trail ∧ f.satisfiedBy u.trail.value = true := by
  have coS := co.grows sound.grown
  cases transition_of_step co sound ended with
  | @found p propagated finished =>
      obtain ⟨reduced, settled⟩ :=
        Progress.reduces_of_propagate (p := ⟨s.trail, s.stats⟩) coS propagated
      have coP : Trail.Coherent f.numVariables p.trail := coS.grows reduced.grown
      refine ⟨sound.grown.trans reduced.grown, ?_⟩
      rcases finished with complete | satisfied
      · exact coP.satisfiedBy_of_complete complete settled
      · exact satisfied
  | retreated _ retreats => cases retreats

end SearchState

end Clausal

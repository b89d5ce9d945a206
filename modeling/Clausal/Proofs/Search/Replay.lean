import Clausal.Proofs.Search.Run

/-!
The history of a search as a log of operations that are all permitted. Every assignment in it finds
its variable open and every cut keeps a part of the trail, so replaying it on the starting trail
yields the current one.
-/
namespace Clausal

/-- The events of the history can happen to the starting trail one after the other, and they make it
the given one. Only the first `n` variables are assigned. -/
inductive History.Replays (n : Nat) (start : Trail) : History → Trail → Prop where
  | nil : Replays n start [] start
  | assigned {history : History} {t u : Trail} {e : Entry} (earlier : Replays n start history t)
      (isOpen : t.IsOpen n e.var) (done : t.assign e.var e.value e.kind = .ok u) :
      Replays n start (.assigned e :: history) u
  | backtracked {history : History} {t : Trail} {k : Nat} (earlier : Replays n start history t)
      (within : k ≤ t.size) : Replays n start (.backtracked k :: history) (t.rewind k)

theorem Trail.Coherent.isOpen_of_assign {n : Nat} {t u : Trail} {v : Int} {b : Bool}
    {kind : Entry.Kind} (co : Coherent n t) (h : t.assign v b kind = .ok u) :
    t.IsOpen n v.toNat := by
  have bounds := bounds_of_assign h
  rw [co.numVariables] at bounds
  exact ⟨by omega, by omega, value_eq_none_of_assign h⟩

theorem History.growth_of_assign {t u w : Trail} {v : Int} {b : Bool} {kind : Entry.Kind}
    (grown : t.Grows u) (h : u.assign v b kind = .ok w) :
    growth t w = .assigned ⟨v.toNat, b, kind⟩ :: growth t u := by
  have longer : w.size - t.size = u.size - t.size + 1 := by
    have := grown.size_le
    have := Trail.size_of_assign h
    omega
  rw [growth, longer, (Trail.values_getElem?_of_assign h).2]
  rfl

namespace History.Replays

variable {n : Nat} {start t u : Trail} {history : History}

theorem assign {v : Nat} {b : Bool} {kind : Entry.Kind} (earlier : Replays n start history t)
    (co : Trail.Coherent n t) (h : t.assign v b kind = .ok u) :
    Replays n start (.assigned ⟨v, b, kind⟩ :: history) u :=
  .assigned earlier (Int.toNat_natCast v ▸ co.isOpen_of_assign h) h

theorem growth (earlier : Replays n start history t) (co : Trail.Coherent n t)
    (grown : t.Grows u) : Replays n start (History.growth t u ++ history) u := by
  induction grown with
  | refl =>
      rw [History.growth, Nat.sub_self]
      exact earlier
  | @assign u w v b kind grown step ih =>
      rw [growth_of_assign grown step]
      have cast : (v.toNat : Int) = v := Int.toNat_of_nonneg (by
        have := (Trail.bounds_of_assign step).1
        omega)
      exact ih.assign (co.grows grown) (cast.symm ▸ step)

theorem retreat {root : Nat} {stats : Stats} {stack : List Frame}
    (earlier : Replays n start history t) (co : Trail.Coherent n start)
    (stacked : SearchState.Stacked t stack)
    (points : ∀ point ∈ SearchState.branchPoints t stack, start.Grows point.1) :
    Replays n start (SearchState.retreat root t stats history stack).state.history
      (SearchState.retreat root t stats history stack).state.trail := by
  induction stack generalizing t stats history with
  | nil =>
      rw [SearchState.retreat]
      split
      · exact earlier
      · rename_i cut
        obtain ⟨within, rfl⟩ := Trail.backtrackTo_eq_ok cut
        exact .backtracked earlier within
  | cons frame stack ih =>
      obtain ⟨grownBelow, outer⟩ := List.forall_mem_cons.1 points
      rw [SearchState.retreat]
      split
      · exact earlier
      · rename_i cut
        obtain ⟨within, rfl⟩ := Trail.backtrackTo_eq_ok cut
        have later := backtracked earlier within
        dsimp only
        split
        · exact ih later stacked.2 outer
        · split
          · exact later
          · rename_i decided
            exact later.assign (co.grows grownBelow) decided

end History.Replays

namespace SearchState

variable {f : Formula} {h : Heuristic} {pureLiterals : Bool} {start : Trail} {s u : SearchState}

theorem replays_step (h : Heuristic) (pureLiterals : Bool)
    (co : Trail.Coherent f.numVariables start) (sound : Sound f start s)
    (earlier : s.history.Replays f.numVariables start s.trail) :
    (s.step f h pureLiterals start.size).state.history.Replays f.numVariables start
      (s.step f h pureLiterals start.size).state.trail := by
  have coS := co.grows sound.grown
  obtain ⟨outcome, p, propagated, _, _⟩ :=
    Progress.propagate_spec pureLiterals ⟨s.trail, s.stats⟩ coS
  have grown : Trail.Grows s.trail p.trail := Progress.grows_of_propagate propagated
  have absorbed : (s.absorb p).history.Replays f.numVariables start (s.absorb p).trail :=
    earlier.growth coS grown
  have same := points_absorb sound grown
  rw [step, propagated]
  cases outcome with
  | conflict =>
      refine absorbed.retreat co (stacked_of_grows grown sound.stacked) fun point hp => ?_
      exact (sound.points point (same ▸ hp)).1
  | fixpoint =>
      dsimp only
      rw [advance]
      split
      · exact absorbed
      · split
        · exact absorbed
        · exact absorbed
        · split
          · exact absorbed
          · rw [branch]
            split
            · exact absorbed
            · rename_i decided
              exact absorbed.assign (coS.grows grown) decided

theorem Reaches.replays (co : Trail.Coherent f.numVariables start) (sound : Sound f start s)
    (reached : Reaches f h pureLiterals start.size s u)
    (earlier : s.history.Replays f.numVariables start s.trail) :
    u.history.Replays f.numVariables start u.trail := by
  induction reached with
  | refl => exact earlier
  | next reached taken ih =>
      have later := replays_step h pureLiterals co (reached.sound co sound) ih
      rw [taken] at later
      exact later

end SearchState

namespace Formula

/-- A search ends without a fault, and its history is a log of permitted operations. -/
theorem search_replays {f : Formula} {t : Trail} (co : Trail.Coherent f.numVariables t)
    (h : Heuristic) (pureLiterals : Bool) (stats : Stats) :
    ∃ found s, f.search h pureLiterals t stats = (.ok found, s) ∧
      s.history.Replays f.numVariables t s.trail := by
  obtain ⟨last, s, reached, sound, ended⟩ := search_ends h pureLiterals co stats
  have replays := SearchState.replays_step h pureLiterals co sound
    (reached.replays co (SearchState.sound_start f t stats) .nil)
  rcases ended with ⟨ended, found⟩ | ⟨ended, refuted⟩
  · rw [ended] at replays
    exact ⟨_, s, found, replays⟩
  · rw [ended] at replays
    exact ⟨_, s, refuted, replays⟩

end Formula

end Clausal

import Clausal.Proofs.Search.Transition

/-!
Runs of the search. Sound states lead to sound states, so what holds where a search starts and is
kept by every transition holds of all states it reaches, up to the one from which it ends. A search
from a trail over the variables of the formula ends with a model or refuted, never with a fault.
-/
namespace Clausal

namespace SearchState

/-- The states at which a search from `s` takes a step. -/
inductive Reaches (f : Formula) (h : Heuristic) (pureLiterals : Bool) (root : Nat)
    (s : SearchState) : SearchState → Prop where
  | refl : Reaches f h pureLiterals root s s
  | next {u w : SearchState} : Reaches f h pureLiterals root s u →
      u.step f h pureLiterals root = .next w → Reaches f h pureLiterals root s w

variable {f : Formula} {h : Heuristic} {pureLiterals : Bool} {start : Trail} {s u : SearchState}

theorem sound_start (f : Formula) (t : Trail) (stats : Stats) : Sound f t (.start t stats) where
  grown := .refl
  stacked := trivial
  points := by simp [SearchState.points, branchPoints, SearchState.start]

theorem Sound.step (co : Trail.Coherent f.numVariables start) (sound : Sound f start s)
    (taken : s.step f h pureLiterals start.size = .next u) : Sound f start u := by
  have stacked := (step_spec sound.stacked taken).1
  cases transition_of_step co sound taken with
  | @branched p v b _ propagated incomplete _ chosen decided after _ =>
      have grown : Trail.Grows s.trail p.trail := Progress.grows_of_propagate propagated
      have coP := (co.grows sound.grown).grows grown
      obtain ⟨w, c, chosen', isOpen⟩ := h.choose_spec coP incomplete
      cases chosen.symm.trans chosen'
      refine ⟨(sound.grown.trans grown).trans (.assign .refl decided), stacked, ?_⟩
      intro point hp
      rw [after, List.mem_cons] at hp
      rcases hp with rfl | hp
      · exact ⟨sound.grown.trans grown, isOpen⟩
      · exact sound.points point hp
  | retreated propagated retreats =>
      cases retreats with
      | @flipped _ inner outer below frame b split _ _ decided after _ =>
          obtain ⟨grown, isOpen⟩ := sound.points (below, frame) (by simp [split])
          refine ⟨grown.trans (.assign .refl decided), stacked, ?_⟩
          intro point hp
          rw [after, List.mem_cons] at hp
          rcases hp with rfl | hp
          · exact ⟨grown, isOpen⟩
          · exact sound.points point (by simp [split, hp])

theorem Reaches.sound (co : Trail.Coherent f.numVariables start)
    (reached : Reaches f h pureLiterals start.size s u) (sound : Sound f start s) :
    Sound f start u := by
  induction reached with
  | refl => exact sound
  | next _ taken ih => exact ih.step co taken

theorem Reaches.head {root : Nat} {w : SearchState}
    (taken : s.step f h pureLiterals root = .next u) (reached : Reaches f h pureLiterals root u w) :
    Reaches f h pureLiterals root s w := by
  induction reached with
  | refl => exact .next .refl taken
  | next _ later ih => exact .next ih later

theorem Reaches.stacked {root : Nat} (reached : Reaches f h pureLiterals root s u)
    (stacked : Stacked s.trail s.stack) : Stacked u.trail u.stack := by
  induction reached with
  | refl => exact stacked
  | next _ taken ih => exact (step_spec ih taken).1

theorem run_of_done {root : Nat} {how : SearchEnd} (stacked : Stacked s.trail s.stack)
    (ended : s.step f h pureLiterals root = .done how u) :
    run f h pureLiterals root s stacked = (how, u) := by
  rw [run]
  split
  · rename_i ended'
    cases ended.symm.trans ended'
    rfl
  · rename_i taken
    cases ended.symm.trans taken

theorem run_of_next {root : Nat} (stacked : Stacked s.trail s.stack)
    (taken : s.step f h pureLiterals root = .next u) :
    run f h pureLiterals root s stacked =
      run f h pureLiterals root u (step_spec stacked taken).1 := by
  rw [run]
  split
  · rename_i ended
    cases taken.symm.trans ended
  · rename_i taken'
    cases taken.symm.trans taken'
    rfl

theorem Reaches.run_eq {root : Nat} (reached : Reaches f h pureLiterals root s u)
    (stacked : Stacked s.trail s.stack) :
    run f h pureLiterals root s stacked =
      run f h pureLiterals root u (reached.stacked stacked) := by
  induction reached with
  | refl => rfl
  | next reached taken ih => rw [ih, run_of_next (reached.stacked stacked) taken]

theorem exists_last (f : Formula) (h : Heuristic) (pureLiterals : Bool) (root : Nat)
    (stacked : Stacked s.trail s.stack) :
    ∃ last how u, Reaches f h pureLiterals root s last ∧
      last.step f h pureLiterals root = .done how u := by
  fun_induction run f h pureLiterals root s stacked with
  | case1 s stacked how u ended => exact ⟨s, how, u, .refl, ended⟩
  | case2 s stacked u taken ih =>
      obtain ⟨last, how, w, reached, ended⟩ := ih
      exact ⟨last, how, w, reached.head taken, ended⟩

end SearchState

namespace Formula

open SearchState

/-- The trail with every variable that has no value made true. -/
def completion (f : Formula) (t : Trail) : Assignment :=
  f.vars.map fun (v : Nat) => ((v : Int), (t.value v).getD true)

theorem completeModel_eq {f : Formula} {t : Trail} (co : Trail.Coherent f.numVariables t) :
    f.completeModel t = .ok (f.completion t) := by
  rw [completeModel, co.covers, if_pos rfl]
  rfl

variable {f : Formula} {h : Heuristic} {pureLiterals : Bool} {t : Trail} {stats : Stats}
  {last u : SearchState}

theorem search_of_refuted (reached : Reaches f h pureLiterals t.size (.start t stats) last)
    (ended : last.step f h pureLiterals t.size = .done .refuted u) :
    f.search h pureLiterals t stats = (.ok none, u) := by
  rw [search, Trail.checkpoint, reached.run_eq trivial, run_of_done _ ended]

theorem search_of_found (co : Trail.Coherent f.numVariables t)
    (reached : Reaches f h pureLiterals t.size (.start t stats) last)
    (ended : last.step f h pureLiterals t.size = .done .model u) :
    f.search h pureLiterals t stats = (.ok (some (f.completion u.trail)), u) := by
  have sound := reached.sound co (sound_start f t stats)
  cases transition_of_step co sound ended with
  | @found p propagated _ =>
      have grown : Trail.Grows last.trail p.trail := Progress.grows_of_propagate propagated
      have complete : f.completeModel (last.absorb p).trail =
          .ok (f.completion (last.absorb p).trail) :=
        completeModel_eq ((co.grows sound.grown).grows grown)
      rw [search, Trail.checkpoint, reached.run_eq trivial, run_of_done _ ended]
      simp only [complete]
  | retreated _ retreats => cases retreats

theorem search_ends (h : Heuristic) (pureLiterals : Bool) (co : Trail.Coherent f.numVariables t)
    (stats : Stats) :
    ∃ last u, Reaches f h pureLiterals t.size (.start t stats) last ∧ Sound f t last ∧
      (last.step f h pureLiterals t.size = .done .model u ∧
          f.search h pureLiterals t stats = (.ok (some (f.completion u.trail)), u) ∨
        last.step f h pureLiterals t.size = .done .refuted u ∧
          f.search h pureLiterals t stats = (.ok none, u)) := by
  obtain ⟨last, how, u, reached, ended⟩ :=
    exists_last (s := .start t stats) f h pureLiterals t.size trivial
  have sound := reached.sound co (sound_start f t stats)
  refine ⟨last, u, reached, sound, ?_⟩
  cases transition_of_step co sound ended with
  | found => exact .inl ⟨ended, search_of_found co reached ended⟩
  | retreated _ retreats =>
      cases retreats with
      | refuted => exact .inr ⟨ended, search_of_refuted reached ended⟩

end Formula

end Clausal

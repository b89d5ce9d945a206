import Clausal.Proofs.Search.Exploration
import Clausal.Proofs.Solver
import Mathlib.Order.Bounds.Basic

/-!
What the counters of a search say about it. A decision either stands at an open branch point or has
been taken back, and each conflict but the last flips one branch point. So where a step starts, the
decisions exceed the backtracks by the number of open branch points, and the backtracks make up two
for each conflict with those that the closed branch points are still to cause. The depth is the
greatest number of branch points that were open at a time.
-/
namespace Clausal

namespace SearchState

/-- The number of branch points without a value left. -/
def closedPoints (points : List (Trail × Frame)) : Nat :=
  points.countP fun point => point.2.pending.isNone

theorem closedPoints_of_closed {points : List (Trail × Frame)}
    (closed : ∀ point ∈ points, point.2.pending = none) : closedPoints points = points.length :=
  List.countP_eq_length.2 fun point hp => by rw [closed point hp, Option.isNone_none]

theorem closedPoints_append (inner outer : List (Trail × Frame)) :
    closedPoints (inner ++ outer) = closedPoints inner + closedPoints outer :=
  List.countP_append

theorem closedPoints_cons (below : Trail) (frame : Frame) (points : List (Trail × Frame)) :
    closedPoints ((below, frame) :: points) =
      closedPoints points + if frame.pending.isNone then 1 else 0 :=
  List.countP_cons

/-- How the counters of a search that started from zero stand where a step starts. -/
structure Balanced (s : SearchState) : Prop where
  decisions : s.stats.decisions = s.stats.backtracks + s.points.length
  backtracks : s.stats.backtracks + closedPoints s.points = 2 * s.stats.conflicts
  conflicts_le : s.stats.conflicts ≤ s.stats.backtracks
  height_le : s.points.length ≤ s.stats.maxDepth
  depth_eq_zero_iff : s.stats.maxDepth = 0 ↔ s.stats.decisions = 0

variable {f : Formula} {h : Heuristic} {pureLiterals : Bool} {start : Trail} {s u : SearchState}

theorem balanced_start (t : Trail) : Balanced (.start t {}) where
  decisions := rfl
  backtracks := rfl
  conflicts_le := Nat.le_refl 0
  height_le := Nat.le_refl 0
  depth_eq_zero_iff := Iff.rfl

/-- Propagation touches none of these counters. -/
theorem Balanced.absorb {p : Progress} {outcome : Propagated} (balanced : Balanced s)
    (sound : Sound f start s)
    (propagated : Progress.propagate f pureLiterals ⟨s.trail, s.stats⟩ = (.ok outcome, p)) :
    Balanced (s.absorb p) := by
  obtain ⟨follows, _, _, _, stats⟩ := Progress.forces_of_propagate propagated
  have same := points_absorb sound follows.grows
  have counters : (s.absorb p).stats = p.stats := rfl
  obtain ⟨decisions, backtracks, conflicts_le, height_le, depth⟩ := balanced
  constructor <;> rw [counters, stats] <;> simpa only [same]

/-- A step keeps the balance. It raises the depth when more branch points are open than ever before. -/
theorem Balanced.step (co : Trail.Coherent f.numVariables start) (sound : Sound f start s)
    (balanced : Balanced s) (taken : s.step f h pureLiterals start.size = .next u) :
    Balanced u ∧ u.stats.maxDepth = max s.stats.maxDepth u.points.length := by
  obtain ⟨decisions, backtracks, conflicts_le, height_le, depth⟩ := balanced
  cases transition_of_step co sound taken with
  | branched propagated _ _ _ _ after counted =>
      obtain ⟨_, _, _, _, stats⟩ := Progress.forces_of_propagate propagated
      have height : u.points.length = s.points.length + 1 := by rw [after, List.length_cons]
      have closed : closedPoints u.points = closedPoints s.points := by
        rw [after, closedPoints_cons]
        rfl
      rw [stats] at counted
      refine ⟨⟨?_, ?_, ?_, ?_, ?_⟩, ?_⟩ <;> rw [counted] <;>
        simp only [Stats.addDecision, Stats.reach] <;> omega
  | retreated propagated retreats =>
      obtain ⟨_, _, _, _, stats⟩ := Progress.forces_of_propagate propagated
      cases retreats with
      | @flipped _ inner outer _ _ _ split shut pending _ after counted =>
          -- The conflict stands for two backtracks: those of the inner branch points were already
          -- counted as still to come, and the flipped one adds its own now and one for later.
          have height : u.points.length = outer.length + 1 := by rw [after, List.length_cons]
          have heightBefore : s.points.length = inner.length + (outer.length + 1) := by
            rw [split, List.length_append, List.length_cons]
          have closed : closedPoints u.points = closedPoints outer + 1 := by
            rw [after, closedPoints_cons]
            rfl
          have closedBefore : closedPoints s.points = inner.length + closedPoints outer := by
            rw [split, closedPoints_append, closedPoints_of_closed shut, closedPoints_cons, pending]
            rfl
          rw [stats] at counted
          refine ⟨⟨?_, ?_, ?_, ?_, ?_⟩, ?_⟩ <;> rw [counted] <;>
            simp only [Stats.addConflict] <;> omega

theorem Reaches.balanced (co : Trail.Coherent f.numVariables start) (sound : Sound f start s)
    (reached : Reaches f h pureLiterals start.size s u) (balanced : Balanced s) : Balanced u := by
  induction reached with
  | refl => exact balanced
  | next reached taken ih => exact (ih.step co (reached.sound co sound) taken).1

theorem Reaches.maxDepth_le (co : Trail.Coherent f.numVariables start) (sound : Sound f start s)
    (reached : Reaches f h pureLiterals start.size s u) (balanced : Balanced s) :
    s.stats.maxDepth ≤ u.stats.maxDepth := by
  induction reached with
  | refl => exact Nat.le_refl _
  | next reached taken ih =>
      rw [((reached.balanced co sound balanced).step co (reached.sound co sound) taken).2]
      exact Nat.le_trans ih (Nat.le_max_left _ _)

/-- The depth is the height of some stack on the way. -/
theorem Reaches.exists_height (co : Trail.Coherent f.numVariables start)
    (reached : Reaches f h pureLiterals start.size (.start start {}) s) :
    ∃ u, Reaches f h pureLiterals start.size (.start start {}) u ∧
      Reaches f h pureLiterals start.size u s ∧ u.points.length = s.stats.maxDepth := by
  have sound := sound_start f start {}
  induction reached with
  | refl => exact ⟨_, .refl, .refl, rfl⟩
  | @next s w reached taken ih =>
      obtain ⟨u, before, onward, height⟩ := ih
      have balanced := reached.balanced co sound (balanced_start start)
      obtain ⟨_, depth⟩ := balanced.step co (reached.sound co sound) taken
      rcases Nat.le_total w.points.length s.stats.maxDepth with low | high
      · exact ⟨u, before, onward.next taken, by rw [height, depth, Nat.max_eq_left low]⟩
      · exact ⟨w, reached.next taken, .refl, by rw [depth, Nat.max_eq_right high]⟩

theorem Reaches.isGreatest_maxDepth (co : Trail.Coherent f.numVariables start)
    (reached : Reaches f h pureLiterals start.size (.start start {}) s) :
    IsGreatest {height | ∃ u, Reaches f h pureLiterals start.size (.start start {}) u ∧
      Reaches f h pureLiterals start.size u s ∧ u.stack.length = height} s.stats.maxDepth := by
  have sound := sound_start f start {}
  constructor
  · obtain ⟨u, before, onward, height⟩ := reached.exists_height co
    exact ⟨u, before, onward, (length_branchPoints _ _).symm.trans height⟩
  · rintro _ ⟨u, before, onward, rfl⟩
    have balanced := before.balanced co sound (balanced_start start)
    rw [← length_branchPoints u.trail u.stack]
    exact Nat.le_trans balanced.height_le (onward.maxDepth_le co (before.sound co sound) balanced)

/-- Each branch point has its decision on the trail. -/
theorem Layered.length_decisions {t : Trail} {points : List (Trail × Frame)}
    (layered : Layered f start t points) :
    t.decisions.length = start.decisions.length + points.length := by
  have lengths := congrArg List.length layered.decisions_eq
  simpa [choices] using lengths

theorem Reaches.maxDepth_le_numVariables (co : Trail.Coherent f.numVariables start)
    (reached : Reaches f h pureLiterals start.size (.start start {}) s) :
    s.stats.maxDepth ≤ f.numVariables := by
  obtain ⟨u, before, _, height⟩ := reached.exists_height co
  have sound := sound_start f start {}
  have layered := before.layered co sound .start
  have guessed : u.trail.decisions.length ≤ u.trail.chronological.length :=
    List.length_filter_le _ _
  have full := (co.grows layered.grows).size_le
  rw [layered.length_decisions, Trail.length_chronological] at guessed
  omega

/-- At a model the counters are balanced as well, and each branch point has its decision on the
trail. -/
theorem Balanced.found (co : Trail.Coherent f.numVariables start) (sound : Sound f start s)
    (layered : Layered f start s.trail s.points) (balanced : Balanced s)
    (ended : s.step f h pureLiterals start.size = .done .model u) :
    Balanced u ∧ u.stats.maxDepth = s.stats.maxDepth ∧
      u.trail.decisions.length = start.decisions.length + u.points.length := by
  cases transition_of_step co sound ended with
  | @found p propagated _ =>
      obtain ⟨follows, _, _, _, stats⟩ := Progress.forces_of_propagate propagated
      have trail : (s.absorb p).trail = p.trail := rfl
      have counters : (s.absorb p).stats = p.stats := rfl
      refine ⟨balanced.absorb sound propagated, by rw [counters, stats], ?_⟩
      rw [points_absorb sound follows.grows, trail, follows.decisions_eq, layered.length_decisions]
  | retreated _ retreats => cases retreats

/-- A search that gives up has left every branch point twice. -/
theorem Balanced.refuted (co : Trail.Coherent f.numVariables start) (sound : Sound f start s)
    (balanced : Balanced s) (ended : s.step f h pureLiterals start.size = .done .refuted u) :
    1 ≤ u.stats.conflicts ∧ u.stats.decisions = 2 * (u.stats.conflicts - 1) ∧
      u.stats.backtracks = 2 * (u.stats.conflicts - 1) ∧
      u.stats.decisions = s.stats.decisions ∧ u.stats.maxDepth = s.stats.maxDepth := by
  obtain ⟨decisions, backtracks, _, _, _⟩ := balanced
  cases transition_of_step co sound ended with
  | retreated propagated retreats =>
      obtain ⟨_, _, _, _, stats⟩ := Progress.forces_of_propagate propagated
      cases retreats with
      | refuted closed _ counted =>
          rw [closedPoints_of_closed closed] at backtracks
          rw [stats] at counted
          refine ⟨?_, ?_, ?_, ?_, ?_⟩ <;> rw [counted] <;> simp only [Stats.addConflict]
          all_goals omega

end SearchState

namespace Formula

open SearchState

theorem search_counters (f : Formula) (h : Heuristic) (pureLiterals : Bool) :
    ∃ found s, f.search h pureLiterals (.empty f.numVariables) {} = (.ok found, s) ∧
      s.stats.maxDepth ≤ f.numVariables ∧ (s.stats.maxDepth = 0 ↔ s.stats.decisions = 0) ∧
      (found = none → 1 ≤ s.stats.conflicts ∧ s.stats.decisions = 2 * (s.stats.conflicts - 1) ∧
        s.stats.backtracks = 2 * (s.stats.conflicts - 1)) ∧
      (found ≠ none → s.stats.decisions = s.stats.backtracks + s.trail.decisions.length ∧
        s.trail.decisions.length ≤ s.stats.maxDepth ∧
        s.stats.conflicts ≤ s.stats.backtracks ∧ s.stats.backtracks ≤ 2 * s.stats.conflicts) := by
  have co := Trail.coherent_empty f.numVariables
  have started := sound_start f (.empty f.numVariables) {}
  obtain ⟨last, s, reached, sound, ended⟩ := search_ends h pureLiterals co {}
  have balanced := reached.balanced co started (balanced_start _)
  have deep := reached.maxDepth_le_numVariables co
  rcases ended with ⟨ended, found⟩ | ⟨ended, refuted⟩
  · obtain ⟨⟨decisions, backtracks, conflicts_le, height_le, depth⟩, same, guessed⟩ :=
      balanced.found co sound (reached.layered co started .start) ended
    have none_ : (Trail.empty f.numVariables).decisions.length = 0 := rfl
    refine ⟨_, s, found, by rwa [same], depth, nofun, fun _ => ?_⟩
    omega
  · obtain ⟨conflicts, decisions, backtracks, sameDecisions, sameDepth⟩ :=
      balanced.refuted co sound ended
    refine ⟨none, s, refuted, by rwa [sameDepth], ?_, fun _ => ⟨conflicts, decisions, backtracks⟩,
      fun found => absurd rfl found⟩
    rw [sameDepth, sameDecisions]
    exact balanced.depth_eq_zero_iff

/-- The counters of a solution are those of the search, or zero where an empty clause makes the
search needless. A refutation takes one conflict for each leaf of the tree of decisions, so two
decisions and two backtracks for each conflict but the last. A model leaves those decisions that its
trail still holds. While the search runs, the decisions that are not taken back are those on the
stack, and the depth is the greatest height that the stack has had. -/
theorem solve_counters (f : Formula) (config : Config) :
    (f.SolvedWith config fun r => r.stats.maxDepth ≤ f.numVariables ∧
      (r.stats.maxDepth = 0 ↔ r.stats.decisions = 0) ∧
      (f.hasEmptyClause = true → r.stats = {}) ∧
      (f.hasEmptyClause = false → ∃ s,
        f.search config.heuristic config.pureLiterals (.empty f.numVariables) {} =
          (.ok r.assignment, s) ∧ r.stats = s.stats ∧
        (r.verdict = .unsatisfiable → 1 ≤ r.stats.conflicts ∧
          r.stats.decisions = 2 * (r.stats.conflicts - 1) ∧
          r.stats.backtracks = 2 * (r.stats.conflicts - 1)) ∧
        (r.verdict = .satisfiable →
          r.stats.decisions = r.stats.backtracks + s.trail.decisions.length ∧
          s.trail.decisions.length ≤ r.stats.maxDepth ∧
          r.stats.conflicts ≤ r.stats.backtracks ∧
          r.stats.backtracks ≤ 2 * r.stats.conflicts))) ∧
    ∀ s, Reaches f config.heuristic config.pureLiterals 0 (.start (.empty f.numVariables) {}) s →
      s.stats.decisions = s.stats.backtracks + s.stack.length ∧
      IsGreatest {height | ∃ u,
        Reaches f config.heuristic config.pureLiterals 0 (.start (.empty f.numVariables) {}) u ∧
        Reaches f config.heuristic config.pureLiterals 0 u s ∧ u.stack.length = height}
        s.stats.maxDepth := by
  have co := Trail.coherent_empty f.numVariables
  refine ⟨solvedWith_of fun searchable => ?_,
    fun s reached => ⟨?_, reached.isGreatest_maxDepth co⟩⟩
  · cases empty : f.hasEmptyClause with
    | true =>
        exact ⟨_, solve_of_hasEmptyClause config empty, Nat.zero_le _, Iff.rfl, fun _ => rfl, nofun⟩
    | false =>
        obtain ⟨found, s, ended, deep, depth, refutation, model⟩ :=
          f.search_counters config.heuristic config.pureLiterals
        obtain ⟨_, ⟨refuted, _⟩ | ⟨found, grown, satisfied⟩⟩ :=
          search_spec co config.heuristic config.pureLiterals {}
        · cases ended.symm.trans refuted
          refine ⟨_, solve_of_refuted config searchable empty refuted, deep, depth, ?_,
            fun _ => ⟨s, refuted, rfl, fun _ => refutation rfl, ?_⟩⟩ <;> rintro ⟨⟩
        · cases ended.symm.trans found
          have solved := solve_of_found config searchable (co.grows grown) satisfied found
          refine ⟨_, solved, deep, depth, ?_,
            fun _ => ⟨s, found, rfl, ?_, fun _ => model (Option.some_ne_none _)⟩⟩ <;> rintro ⟨⟩
  · rw [← length_branchPoints s.trail s.stack]
    exact (reached.balanced co (sound_start f _ {}) (balanced_start _)).decisions

end Formula

end Clausal

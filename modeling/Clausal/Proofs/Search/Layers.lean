import Clausal.Proofs.Propagation.Forcing
import Clausal.Proofs.Search.Completeness

/-!
The trail of a search in layers. Below the first branch point lies the starting trail with what was
forced on it, and each branch point adds its decision with what was forced on that. A branch point
without a value left had its other value refuted: no model goes through it. That is kept through
retreats because forcing keeps a model within reach, if there is one, although not the same one.
-/
namespace Clausal

/-- Some model agrees with the trail. -/
def Trail.Admits (f : Formula) (t : Trail) : Prop :=
  ∃ ν, t.Agrees ν ∧ f.holds ν = true

namespace SearchState

/-- The layers of a trail on which a step starts, innermost first: it ends in the decision of the
innermost branch point. -/
inductive Layered (f : Formula) (start : Trail) : Trail → List (Trail × Frame) → Prop where
  | start : Layered f start start []
  | decision {t below u : Trail} {frame : Frame} {b : Bool} {points : List (Trail × Frame)}
      (outer : Layered f start t points) (follows : t.Follows below)
      (admits : t.Admits f → below.Admits f)
      (decided : below.assign frame.var b .decision = .ok u)
      (checkpoint : frame.checkpoint = below.size)
      (left : ∀ c, frame.pending = some c → c = !b)
      (refuted : frame.pending = none → ∀ ν, below.Agrees ν → ν frame.var = !b → f.holds ν ≠ true) :
      Layered f start u ((below, frame) :: points)

namespace Layered

variable {f : Formula} {start t u : Trail} {points : List (Trail × Frame)}

theorem grows (h : Layered f start u points) : start.Grows u := by
  induction h with
  | start => exact .refl
  | decision _ follows _ decided _ _ _ ih => exact .assign (ih.trans follows.grows) decided

/-- Where closed branch points lead to nothing, the trail below them leads to nothing either. -/
theorem unwind {inner outer : List (Trail × Frame)} (h : Layered f start u (inner ++ outer))
    (closed : ∀ point ∈ inner, point.2.pending = none) (dead : ¬u.Admits f) :
    ∃ t, Layered f start t outer ∧ ¬t.Admits f := by
  induction inner generalizing u with
  | nil => exact ⟨u, h, dead⟩
  | cons point inner ih =>
      obtain ⟨closedFirst, later⟩ := List.forall_mem_cons.1 closed
      cases h with
      | decision outer _ admits decided _ _ refuted =>
          refine ih outer later fun alive => ?_
          obtain ⟨ν, agrees, model⟩ := admits alive
          refine dead ⟨ν, (Trail.agrees_assign_iff decided).2 ⟨agrees, ?_⟩, model⟩
          by_contra other
          exact refuted closedFirst ν agrees (Bool.eq_not.2 other) model

/-- A branch point whose first value leads to nothing can be closed with the other value. -/
theorem flip {below : Trail} {frame : Frame} {c : Bool}
    (h : Layered f start t ((below, frame) :: points)) (dead : ¬t.Admits f)
    (pending : frame.pending = some c) (decided : below.assign frame.var c .decision = .ok u) :
    Layered f start u ((below, { frame with pending := none }) :: points) := by
  cases h with
  | @decision _ _ _ _ b _ outer follows admits decided' checkpoint left _ =>
      obtain rfl := left c pending
      refine .decision outer follows admits decided checkpoint nofun ?_
      intro _ ν agrees value model
      rw [Bool.not_not] at value
      exact dead ⟨ν, (Trail.agrees_assign_iff decided').2 ⟨agrees, value⟩, model⟩

/-- The trail below a branch point is the part of the trail up to its checkpoint, where the decision
stands. -/
theorem of_mem (h : Layered f start u points) {below : Trail} {frame : Frame}
    (hp : (below, frame) ∈ points) :
    start.Grows below ∧ frame.checkpoint = below.size ∧
      ∃ b w, below.assign frame.var b .decision = .ok w ∧ w.Grows u ∧
        (∀ c, frame.pending = some c → c = !b) ∧
        (frame.pending = none → ∀ ν, below.Agrees ν → ν frame.var = !b → f.holds ν ≠ true) := by
  induction h with
  | start => cases hp
  | @decision t _ u _ b _ outer follows _ decided checkpoint left refuted ih =>
      rcases List.mem_cons.1 hp with same | hp
      · cases same
        exact ⟨outer.grows.trans follows.grows, checkpoint, b, u, decided, .refl, left, refuted⟩
      · obtain ⟨grown, size, c, w, decided', grownW, rest⟩ := ih hp
        exact ⟨grown, size, c, w, decided',
          grownW.trans (.assign follows.grows decided), rest⟩

/-- Outer branch points have smaller checkpoints. -/
theorem pairwise_checkpoint (h : Layered f start u points) :
    points.Pairwise fun inner outer => outer.2.checkpoint < inner.2.checkpoint := by
  induction h with
  | start => exact .nil
  | decision outer follows _ _ checkpoint _ _ ih =>
      refine List.pairwise_cons.2 ⟨?_, ih⟩
      rintro ⟨below, frame⟩ hp
      obtain ⟨_, size, _, w, decided, grown, _⟩ := outer.of_mem hp
      have := Trail.size_of_assign decided
      have := grown.size_le
      have := follows.grows.size_le
      dsimp only
      omega

/-- Past the starting trail there are no decisions but those of the branch points. -/
theorem kind_of_getElem? (h : Layered f start u points) {i : Nat} {e : Entry}
    (later : start.size ≤ i) (he : u.chronological[i]? = some e)
    (other : ∀ point ∈ points, point.2.checkpoint ≠ i) : e.kind = .forced := by
  induction h with
  | start =>
      rw [List.getElem?_eq_none (by rwa [Trail.length_chronological])] at he
      cases he
  | @decision t below u frame b points outer follows _ decided checkpoint _ _ ih =>
      obtain ⟨added, entries, forced⟩ := follows.forced
      obtain ⟨notHere, other⟩ := List.forall_mem_cons.1 other
      rw [Trail.chronological_of_assign decided] at he
      have short : i < below.chronological.length := by
        have := (List.getElem?_eq_some_iff.1 he).1
        rw [List.length_append, List.length_singleton, Trail.length_chronological] at this
        rw [Trail.length_chronological]
        dsimp only at notHere
        omega
      rw [List.getElem?_append_left short, entries] at he
      by_cases inner : i < t.chronological.length
      · rw [List.getElem?_append_left inner] at he
        exact ih he other
      · rw [List.getElem?_append_right (by omega)] at he
        exact forced e (List.mem_of_getElem? he)

end Layered

variable {f : Formula} {h : Heuristic} {pureLiterals : Bool} {start : Trail} {s u : SearchState}

theorem Layered.step (co : Trail.Coherent f.numVariables start) (sound : Sound f start s)
    (taken : s.step f h pureLiterals start.size = .next u)
    (layered : Layered f start s.trail s.points) : Layered f start u.trail u.points := by
  have coS := co.grows sound.grown
  cases transition_of_step co sound taken with
  | @branched p v b _ propagated _ _ _ decided after _ =>
      obtain ⟨reduced, _⟩ := Progress.reduces_of_propagate (p := ⟨s.trail, s.stats⟩) coS propagated
      rw [after]
      have follows := (Progress.forces_of_propagate propagated).follows
      refine .decision layered follows ?_ decided rfl ?_ nofun
      · rintro ⟨ν, agrees, model⟩
        exact ⟨_, Trail.agrees_override p.trail ν, reduced.holds_override ν agrees model⟩
      · rintro c ⟨⟩
        rfl
  | @retreated p _ propagated retreats =>
      have dead : ¬s.trail.Admits f := fun ⟨ν, agrees, model⟩ =>
        Progress.not_holds_of_propagate (p := ⟨s.trail, s.stats⟩) coS propagated agrees model
      cases retreats with
      | flipped split closed pending decided after _ =>
          rw [split] at layered
          obtain ⟨t, layeredT, deadT⟩ := layered.unwind closed dead
          rw [after]
          exact layeredT.flip deadT pending decided

theorem Reaches.layered (co : Trail.Coherent f.numVariables start) (sound : Sound f start s)
    (reached : Reaches f h pureLiterals start.size s u)
    (layered : Layered f start s.trail s.points) : Layered f start u.trail u.points := by
  induction reached with
  | refl => exact layered
  | next reached taken ih => exact ih.step co (reached.sound co sound) taken

theorem exists_point_of_mem {frame : Frame} (hf : frame ∈ s.stack) :
    ∃ below, (below, frame) ∈ s.points := by
  rw [← map_snd_branchPoints s.trail s.stack] at hf
  obtain ⟨⟨below, _⟩, hp, rfl⟩ := List.mem_map.1 hf
  exact ⟨below, hp⟩

theorem mem_stack_of_mem {point : Trail × Frame} (hp : point ∈ s.points) : point.2 ∈ s.stack := by
  rw [← map_snd_branchPoints s.trail s.stack]
  exact List.mem_map_of_mem hp

/-- Wherever a step starts, the checkpoints of the branch points ascend between the starting trail
and the end of the trail, they are the places of the only new decisions, and the value left at a
branch point is the one that was not decided; where none is left, no model has the other value. A
model of the starting trail leaves one that agrees with the trail or with a value that is left. -/
theorem branch_points_of_reaches (grown : Trail.Grows (.empty f.numVariables) start) {stats : Stats}
    (reached : Reaches f h pureLiterals start.size (.start start stats) s) :
    (s.stack.reverse.map Frame.checkpoint).Pairwise (· < ·) ∧
    (∀ frame ∈ s.stack, start.size ≤ frame.checkpoint ∧ frame.checkpoint < s.trail.size ∧
      ∃ b, s.trail.chronological[frame.checkpoint]? = some ⟨frame.var, b, .decision⟩ ∧
        (∀ c, frame.pending = some c → c = !b) ∧
        (frame.pending = none → ¬∃ ν, f.holds ν = true ∧ ν frame.var = !b ∧
          ∀ e ∈ s.trail.chronological.take frame.checkpoint, ν e.var = e.value)) ∧
    (∀ i e, start.size ≤ i → s.trail.chronological[i]? = some e →
      (∀ frame ∈ s.stack, frame.checkpoint ≠ i) → e.kind = .forced) ∧
    ((∃ ν, f.holds ν = true ∧ ∀ e ∈ start.entries, ν e.var = e.value) →
      ∃ ν, f.holds ν = true ∧ ((∀ e ∈ s.trail.entries, ν e.var = e.value) ∨
        ∃ frame ∈ s.stack, ∃ c, frame.pending = some c ∧ ν frame.var = c ∧
          ∀ e ∈ s.trail.chronological.take frame.checkpoint, ν e.var = e.value)) := by
  have co := (Trail.coherent_empty f.numVariables).grows grown
  have sound := sound_start f start stats
  have layered := reached.layered co sound .start
  have agrees_iff {below : Trail} {frame : Frame} (hp : (below, frame) ∈ s.points)
      (ν : Nat → Bool) :
      below.Agrees ν ↔ ∀ e ∈ s.trail.chronological.take frame.checkpoint, ν e.var = e.value := by
    obtain ⟨grownBelow, checkpoint, _, _, decided, grownW, _⟩ := layered.of_mem hp
    rw [checkpoint]
    exact (Trail.Grows.trans (.assign .refl decided) grownW).agrees_iff_take (co.grows grownBelow)
  refine ⟨?_, ?_, ?_, ?_⟩
  · rw [List.map_reverse, List.pairwise_reverse, List.pairwise_map,
      ← map_snd_branchPoints s.trail s.stack, List.pairwise_map]
    exact layered.pairwise_checkpoint
  · intro frame hf
    obtain ⟨below, hp⟩ := exists_point_of_mem hf
    obtain ⟨grownBelow, checkpoint, b, w, decided, grownW, left, refuted⟩ := layered.of_mem hp
    have size := Trail.size_of_assign decided
    have low := grownBelow.size_le
    have high := grownW.size_le
    have entry : s.trail.chronological[frame.checkpoint]? = some ⟨frame.var, b, .decision⟩ := by
      obtain ⟨later, entries⟩ := grownW.chronological_prefix
      rw [← entries, Trail.chronological_of_assign decided, checkpoint,
        ← Trail.length_chronological, List.append_assoc, List.getElem?_append_right (Nat.le_refl _)]
      simp
    refine ⟨by omega, by omega, b, entry, left, ?_⟩
    rintro closed ⟨ν, model, value, agrees⟩
    exact refuted closed ν ((agrees_iff hp ν).2 agrees) value model
  · intro i e later he other
    exact layered.kind_of_getElem? later he fun point hp => other _ (mem_stack_of_mem hp)
  · rintro ⟨ν, model, agrees⟩
    obtain ⟨μ, modelμ, covered, _⟩ :=
      reached.covers co sound model (covers_start (co.agrees_iff.2 agrees) stats)
    refine ⟨μ, modelμ, covered.imp ?_ ?_⟩
    · exact ((co.grows layered.grows).agrees_iff).1
    · rintro ⟨⟨below, frame⟩, hp, c, pending, agreesBelow, value⟩
      exact ⟨frame, mem_stack_of_mem hp, c, pending, value, (agrees_iff hp μ).1 agreesBelow⟩

theorem branch_points_of_reaches_flipped :
    let f : Formula := ⟨3, [[-1, 2, -3], [-1, -2, -3]], by decide, by decide⟩
    let start : Trail := ⟨3, #[none, none, none, some true], [⟨3, true, .decision⟩], 1⟩
    Trail.Grows (.empty f.numVariables) start ∧
      ∃ s, Reaches f .order false start.size (.start start {}) s ∧ s.stack = [⟨1, 1, none⟩] ∧
        ∃ b, s.trail.chronological[1]? = some ⟨1, b, .decision⟩ ∧
          ¬∃ ν, f.holds ν = true ∧ ν 1 = !b ∧ ν 3 = true := by
  intro f start
  have decided : (Trail.empty f.numVariables).assign 3 true .decision = .ok start := rfl
  have grown : Trail.Grows (.empty f.numVariables) start := .assign .refl decided
  let tried : SearchState :=
    ⟨⟨3, #[none, some true, none, some true], [⟨1, true, .decision⟩, ⟨3, true, .decision⟩], 2⟩,
      { decisions := 1, maxDepth := 1 }, [⟨1, 1, some false⟩], [.assigned ⟨1, true, .decision⟩]⟩
  let flipped : SearchState :=
    ⟨⟨3, #[none, some false, none, some true], [⟨1, false, .decision⟩, ⟨3, true, .decision⟩], 2⟩,
      { decisions := 2, propagations := 1, conflicts := 1, backtracks := 1, maxDepth := 1 },
      [⟨1, 1, none⟩],
      [.assigned ⟨1, false, .decision⟩, .backtracked 1, .assigned ⟨2, true, .forced⟩,
        .assigned ⟨1, true, .decision⟩]⟩
  have reached : Reaches f .order false start.size (.start start {}) flipped := by
    have first : SearchState.step f .order false start.size (.start start {}) = .next tried := by
      with_unfolding_all rfl
    have second : tried.step f .order false start.size = .next flipped := by
      with_unfolding_all rfl
    exact (Reaches.refl.next first).next second
  obtain ⟨_, frames, _, _⟩ := branch_points_of_reaches grown reached
  obtain ⟨_, _, b, entry, _, refuted⟩ := frames ⟨1, 1, none⟩ List.mem_cons_self
  refine ⟨grown, flipped, reached, rfl, b, entry, ?_⟩
  rintro ⟨ν, model, value, above⟩
  refine refuted rfl ⟨ν, model, value, fun e he => ?_⟩
  have only : e = ⟨3, true, .decision⟩ := by simpa [flipped, Trail.chronological] using he
  rw [only, above]

end SearchState

end Clausal

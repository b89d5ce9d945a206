import Clausal.Proofs.Branching
import Clausal.Proofs.Propagation.Fixpoint
import Clausal.Search

/-!
What a step of the search can do. The stack is read as a list of branch points, each with the trail
as it was before the decision. On a sound state a step never faults: it finds a model, opens a
branch point, flips the innermost branch point with a value left, or gives up where none has.
-/
namespace Clausal

/-- The state that a step leads to, whether or not the search goes on from there. -/
def SearchStep.state : SearchStep → SearchState
  | .next s => s
  | .done _ s => s

namespace SearchState

/-- The branch points of a stack with the trails below their decisions, innermost first. -/
def branchPoints (t : Trail) : List Frame → List (Trail × Frame)
  | [] => []
  | frame :: stack =>
    (t.rewind frame.checkpoint, frame) :: branchPoints (t.rewind frame.checkpoint) stack

def points (s : SearchState) : List (Trail × Frame) := branchPoints s.trail s.stack

/-- Retreating closes branch points until one has a value left, which is then decided. -/
inductive Retreats (root : Nat) (t : Trail) (stats : Stats) (points : List (Trail × Frame)) :
    SearchStep → Prop where
  | refuted {u : SearchState} (closed : ∀ point ∈ points, point.2.pending = none)
      (trail : u.trail = t.rewind root)
      (counted : u.stats = { stats with backtracks := stats.backtracks + points.length }) :
      Retreats root t stats points (.done .refuted u)
  | flipped {u : SearchState} {inner outer : List (Trail × Frame)} {below : Trail} {frame : Frame}
      {b : Bool} (split : points = inner ++ (below, frame) :: outer)
      (closed : ∀ point ∈ inner, point.2.pending = none) (pending : frame.pending = some b)
      (decided : below.assign frame.var b .decision = .ok u.trail)
      (after : u.points = (below, { frame with pending := none }) :: outer)
      (counted : u.stats = { stats with
        decisions := stats.decisions + 1
        backtracks := stats.backtracks + (inner.length + 1) }) :
      Retreats root t stats points (.next u)

inductive Transition (f : Formula) (h : Heuristic) (pureLiterals : Bool) (root : Nat)
    (s : SearchState) : SearchStep → Prop where
  | found {p : Progress}
      (propagated : Progress.propagate f pureLiterals ⟨s.trail, s.stats⟩ = (.ok .fixpoint, p))
      (finished : p.trail.isComplete = true ∨ f.satisfiedBy p.trail.value = true) :
      Transition f h pureLiterals root s (.done .model (s.absorb p))
  | branched {p : Progress} {v : Nat} {b : Bool} {u : SearchState}
      (propagated : Progress.propagate f pureLiterals ⟨s.trail, s.stats⟩ = (.ok .fixpoint, p))
      (incomplete : p.trail.isComplete = false)
      (unsatisfied : f.satisfiedBy p.trail.value = false)
      (chosen : h.choose f p.trail = .ok (v, b))
      (decided : p.trail.assign v b .decision = .ok u.trail)
      (after : u.points = (p.trail, ⟨p.trail.checkpoint, v, some !b⟩) :: s.points)
      (counted : u.stats = p.stats.addDecision.reach (s.points.length + 1)) :
      Transition f h pureLiterals root s (.next u)
  | retreated {p : Progress} {step : SearchStep}
      (propagated : Progress.propagate f pureLiterals ⟨s.trail, s.stats⟩ = (.ok .conflict, p))
      (retreats : Retreats root p.trail p.stats.addConflict s.points step) :
      Transition f h pureLiterals root s step

theorem Transition.retreats_of_conflict {f : Formula} {h : Heuristic} {pureLiterals : Bool}
    {root : Nat} {s : SearchState} {step : SearchStep} {p : Progress}
    (taken : Transition f h pureLiterals root s step)
    (propagated : Progress.propagate f pureLiterals ⟨s.trail, s.stats⟩ = (.ok .conflict, p)) :
    Retreats root p.trail p.stats.addConflict s.points step := by
  cases taken with
  | found other | branched other => cases propagated.symm.trans other
  | retreated other retreats =>
      cases propagated.symm.trans other
      exact retreats

/-- The trail has grown from the one the search started on, and so have the trails below the
decisions, where the decided variables are open. -/
structure Sound (f : Formula) (start : Trail) (s : SearchState) : Prop where
  grown : start.Grows s.trail
  stacked : Stacked s.trail s.stack
  points : ∀ point ∈ s.points, start.Grows point.1 ∧ point.1.IsOpen f.numVariables point.2.var

variable {f : Formula} {h : Heuristic} {pureLiterals : Bool} {start : Trail} {s u : SearchState}

theorem map_snd_branchPoints (t : Trail) (stack : List Frame) :
    (branchPoints t stack).map Prod.snd = stack := by
  induction stack generalizing t with
  | nil => rfl
  | cons frame stack ih => rw [branchPoints, List.map_cons, ih]

theorem length_branchPoints (t : Trail) (stack : List Frame) :
    (branchPoints t stack).length = stack.length := by
  rw [← List.length_map Prod.snd, map_snd_branchPoints]

theorem branchPoints_of_grows {t u : Trail} {stack : List Frame} (grown : Trail.Grows t u)
    (stacked : Stacked t stack) : branchPoints u stack = branchPoints t stack := by
  cases stack with
  | nil => rfl
  | cons frame stack => simp only [branchPoints, grown.rewind_eq stacked.1]

theorem points_absorb {p : Progress} (sound : Sound f start s)
    (grown : Trail.Grows s.trail p.trail) : (s.absorb p).points = s.points :=
  branchPoints_of_grows grown sound.stacked

/-- A branch point without a value left adds a backtrack to the retreat from below it. -/
theorem Retreats.cons {root : Nat} {t below : Trail} {stats : Stats} {frame : Frame}
    {points : List (Trail × Frame)} {step : SearchStep}
    (tail : Retreats root below stats.addBacktrack points step) (closed : frame.pending = none)
    (cut : below.rewind root = t.rewind root) :
    Retreats root t stats ((below, frame) :: points) step := by
  cases tail with
  | refuted rest trail counted =>
      refine .refuted (List.forall_mem_cons.2 ⟨closed, rest⟩) (trail.trans cut) ?_
      rw [counted, List.length_cons]
      simp only [Stats.addBacktrack, Stats.mk.injEq, true_and, and_true]
      omega
  | @flipped u inner outer innermost chosen b split rest left decided after counted =>
      have split' : (below, frame) :: points =
          ((below, frame) :: inner) ++ (innermost, chosen) :: outer := by
        rw [split, List.cons_append]
      refine .flipped split' (List.forall_mem_cons.2 ⟨closed, rest⟩) left decided after ?_
      rw [counted]
      simp only [Stats.addBacktrack, List.length_cons, Stats.mk.injEq, true_and, and_true]
      omega

theorem retreats {n : Nat} {t : Trail} {stack : List Frame} (stats : Stats) (history : History)
    (co : Trail.Coherent n start) (grown : start.Grows t) (stacked : Stacked t stack)
    (points : ∀ point ∈ branchPoints t stack, start.Grows point.1 ∧ point.1.IsOpen n point.2.var) :
    Retreats start.size t stats (branchPoints t stack)
      (retreat start.size t stats history stack) := by
  induction stack generalizing t stats history with
  | nil =>
      have low : (0 : Int) ≤ start.size ∧ (start.size : Int) ≤ t.size := by
        have := grown.size_le
        omega
      rw [retreat, Trail.backtrackTo, if_pos low]
      exact .refuted (by simp [branchPoints]) rfl rfl
  | cons frame stack ih =>
      obtain ⟨low, rest⟩ := stacked
      obtain ⟨grownBelow, isOpen⟩ := points _ List.mem_cons_self
      have within : (0 : Int) ≤ frame.checkpoint ∧ (frame.checkpoint : Int) ≤ t.size := by omega
      have size := Trail.size_rewind low
      have above : start.size ≤ frame.checkpoint := size ▸ grownBelow.size_le
      have tail := ih stats.addBacktrack (.backtracked frame.checkpoint :: history) grownBelow rest
        fun point hp => points point (List.mem_cons_of_mem _ hp)
      rw [retreat, Trail.backtrackTo, if_pos within, Int.toNat_natCast]
      dsimp only
      cases pending : frame.pending with
      | none =>
          dsimp only
          exact tail.cons pending (Trail.rewind_rewind above low)
      | some b =>
          obtain ⟨w, decided⟩ := isOpen.exists_assign (co.grows grownBelow) b .decision
          have back : w.rewind frame.checkpoint = t.rewind frame.checkpoint := by
            rw [Trail.rewind_of_assign decided (Nat.le_of_eq size.symm),
              Trail.rewind_rewind (Nat.le_refl _) low]
          simp only [decided]
          have split : branchPoints t (frame :: stack) =
              [] ++ (t.rewind frame.checkpoint, frame) ::
                branchPoints (t.rewind frame.checkpoint) stack := rfl
          refine .flipped split (by simp) pending decided ?_ rfl
          simp only [SearchState.points, branchPoints, back]

/-- On a sound state a step is a transition, so it never faults. -/
theorem step_transition (h : Heuristic) (pureLiterals : Bool)
    (co : Trail.Coherent f.numVariables start) (sound : Sound f start s) :
    Transition f h pureLiterals start.size s (s.step f h pureLiterals start.size) := by
  have coS := co.grows sound.grown
  obtain ⟨outcome, p, propagated, _, _⟩ :=
    Progress.propagate_spec pureLiterals ⟨s.trail, s.stats⟩ coS
  have grown : Trail.Grows s.trail p.trail := Progress.grows_of_propagate propagated
  have coP := coS.grows grown
  have same := points_absorb sound grown
  rw [step, propagated]
  cases outcome with
  | conflict =>
      refine .retreated propagated ?_
      rw [← same]
      exact retreats _ _ co (sound.grown.trans grown) (stacked_of_grows grown sound.stacked)
        fun point hp => sound.points point (same ▸ hp)
  | fixpoint =>
      have scanned := coP.allSatisfied_eq fun c hc l hl => Formula.var_le_of_mem (f := f) hc hl
      have trail : (s.absorb p).trail = p.trail := rfl
      dsimp only
      rw [advance, trail]
      cases complete : p.trail.isComplete with
      | true => exact .found propagated (.inl complete)
      | false =>
          rw [if_neg Bool.false_ne_true, scanned]
          cases satisfied : f.clauses.all (Clause.satisfiedBy p.trail.value) with
          | true => exact .found propagated (.inr satisfied)
          | false =>
              obtain ⟨v, b, chosen, isOpen⟩ := h.choose_spec coP complete
              obtain ⟨t, decided⟩ := isOpen.exists_assign coP b .decision
              have back : t.rewind p.trail.checkpoint = p.trail := by
                rw [Trail.checkpoint, Trail.rewind_of_assign decided (Nat.le_refl _),
                  Trail.rewind_size]
              simp only [chosen, branch, trail, decided]
              refine .branched propagated complete satisfied chosen decided ?_ ?_
              · rw [← same]
                simp only [SearchState.points, branchPoints, back, trail]
              · rw [SearchState.points, length_branchPoints]
                rfl

theorem transition_of_step {step : SearchStep} (co : Trail.Coherent f.numVariables start)
    (sound : Sound f start s) (taken : s.step f h pureLiterals start.size = step) :
    Transition f h pureLiterals start.size s step :=
  taken ▸ step_transition h pureLiterals co sound

end SearchState

end Clausal

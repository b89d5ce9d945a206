import Clausal.Proofs.Reordering.Branching
import Clausal.Proofs.Reordering.Propagation
import Clausal.Proofs.Search.Run

/-!
Searches on two formulas with the same clauses run in step, as long as they choose alike. Their
trails may hold the entries in different orders, but current trails and the trails below branch
points have the same values. A conflict is found in the same step by both, though not in the same
clause, and the retreat that follows forgets the difference.
-/
namespace Clausal

namespace SearchState

/-- The same decision from the same values. -/
structure PointMatches (x y : Trail × Frame) : Prop where
  values : x.1.value = y.1.value
  var : x.2.var = y.2.var
  pending : x.2.pending = y.2.pending

structure Matches (s u : SearchState) : Prop where
  values : s.trail.value = u.trail.value
  points : List.Forall₂ PointMatches s.points u.points
  stats : s.stats.Matches u.stats

/-- Both steps go on or end the search in the same way. -/
inductive StepMatches : SearchStep → SearchStep → Prop where
  | next {s u : SearchState} : Matches s u → StepMatches (.next s) (.next u)
  | found {s u : SearchState} : s.trail.value = u.trail.value → s.stats.Matches u.stats →
      StepMatches (.done .model s) (.done .model u)
  | refuted {s u : SearchState} : s.stats.Matches u.stats →
      StepMatches (.done .refuted s) (.done .refuted u)

theorem PointMatches.symm {x y : Trail × Frame} (h : PointMatches x y) : PointMatches y x :=
  ⟨h.values.symm, h.var.symm, h.pending.symm⟩

variable {xs ys : List (Trail × Frame)}

theorem points_symm (h : List.Forall₂ PointMatches xs ys) : List.Forall₂ PointMatches ys xs :=
  h.flip.imp fun _ _ => PointMatches.symm

theorem closed_of_matches (h : List.Forall₂ PointMatches xs ys)
    (closed : ∀ x ∈ xs, x.2.pending = none) : ∀ y ∈ ys, y.2.pending = none := by
  induction h with
  | nil => simp
  | cons first _ ih =>
      obtain ⟨closedFirst, later⟩ := List.forall_mem_cons.1 closed
      exact List.forall_mem_cons.2 ⟨first.pending.symm.trans closedFirst, ih later⟩

theorem innermost_matches {inner outer inner' outer' : List (Trail × Frame)} {x y : Trail × Frame}
    (h : List.Forall₂ PointMatches (inner ++ x :: outer) (inner' ++ y :: outer'))
    (closed : ∀ z ∈ inner, z.2.pending = none) (closed' : ∀ z ∈ inner', z.2.pending = none)
    (left : x.2.pending ≠ none) (left' : y.2.pending ≠ none) :
    inner.length = inner'.length ∧ PointMatches x y ∧ List.Forall₂ PointMatches outer outer' := by
  induction inner generalizing inner' with
  | nil =>
      cases inner' with
      | nil =>
          cases h with
          | cons first later => exact ⟨rfl, first, later⟩
      | cons z inner' =>
          cases h with
          | cons first _ =>
              exact absurd (first.pending.trans (closed' z List.mem_cons_self)) left
  | cons z inner ih =>
      cases inner' with
      | nil =>
          cases h with
          | cons first _ =>
              exact absurd (first.pending.symm.trans (closed z List.mem_cons_self)) left'
      | cons z' inner' =>
          cases h with
          | cons _ later =>
              obtain ⟨length, innermost, rest⟩ := ih later
                (fun w hw => closed w (List.mem_cons_of_mem _ hw))
                (fun w hw => closed' w (List.mem_cons_of_mem _ hw))
              exact ⟨congrArg (· + 1) length, innermost, rest⟩

theorem retreats_match {rootL rootR : Nat} {t u : Trail} {a b : Stats} {left right : SearchStep}
    (retreatsL : Retreats rootL t a xs left) (retreatsR : Retreats rootR u b ys right)
    (points : List.Forall₂ PointMatches xs ys) (counted : a.Matches b) :
    StepMatches left right := by
  cases retreatsL with
  | refuted closed _ countedL =>
      cases retreatsR with
      | refuted _ _ countedR =>
          refine .refuted ?_
          rw [countedL, countedR, points.length_eq]
          exact counted.addRetreat 0 _
      | @flipped _ _ _ below frame c split _ pending _ _ _ =>
          have shut := closed_of_matches points closed (below, frame) (by simp [split])
          rw [pending] at shut
          cases shut
  | @flipped _ inner outer below frame c split closed pending decided after countedL =>
      cases retreatsR with
      | refuted closed' _ _ =>
          have shut := closed_of_matches (points_symm points) closed' (below, frame)
            (by simp [split])
          rw [pending] at shut
          cases shut
      | @flipped _ _ _ _ frame' c' split' closed' pending' decided' after' countedR =>
          rw [split, split'] at points
          obtain ⟨length, innermost, rest⟩ := innermost_matches points closed closed'
            (by simp [pending]) (by simp [pending'])
          have sameValue : c = c' :=
            Option.some.inj ((pending.symm.trans innermost.pending).trans pending')
          have sameVar : frame.var = frame'.var := innermost.var
          rw [← sameVar, ← sameValue] at decided'
          refine .next ⟨Trail.value_eq_of_assign innermost.values decided decided', ?_, ?_⟩
          · rw [after, after']
            exact .cons ⟨innermost.values, sameVar, rfl⟩ rest
          · rw [countedL, countedR, length]
            exact counted.addRetreat 1 _

variable {f g : Formula} {h : Heuristic} {pureLiterals : Bool} {start start' : Trail}
  {s u : SearchState}

/-- After matching fixpoints both searches are over, or both decide the same. -/
theorem advances_match {left right : SearchStep} {p q : Progress} (same : f.SameClauses g)
    (choices : f.ChoosesAlike h g) (coP : Trail.Coherent f.numVariables p.trail)
    (coQ : Trail.Coherent g.numVariables q.trail)
    (endL : Progress.propagate f pureLiterals ⟨s.trail, s.stats⟩ = (.ok .fixpoint, p))
    (endR : Progress.propagate g pureLiterals ⟨u.trail, u.stats⟩ = (.ok .fixpoint, q))
    (transitionL : Transition f h pureLiterals start.size s left)
    (transitionR : Transition g h pureLiterals start'.size u right)
    (points : List.Forall₂ PointMatches s.points u.points) (after : p.Matches q) :
    StepMatches left right := by
  obtain ⟨values, stats⟩ := after
  have complete : p.trail.isComplete = q.trail.isComplete :=
    coP.isComplete_eq (same.count ▸ coQ) values
  have satisfied : f.satisfiedBy p.trail.value = g.satisfiedBy q.trail.value := by
    rw [values, same.satisfiedBy_eq]
  cases transitionL with
  | retreated propagated => cases endL.symm.trans propagated
  | found propagated finished =>
      cases endL.symm.trans propagated
      cases transitionR with
      | retreated propagated => cases endR.symm.trans propagated
      | found propagated =>
          cases endR.symm.trans propagated
          exact .found values stats
      -- Whether a search is over can be read off the values.
      | branched propagated incomplete unsatisfied =>
          cases endR.symm.trans propagated
          simp [complete, satisfied, incomplete, unsatisfied] at finished
  | branched propagated incomplete unsatisfied chosenL decidedL afterL countedL =>
      cases endL.symm.trans propagated
      cases transitionR with
      | retreated propagated => cases endR.symm.trans propagated
      | found propagated finished =>
          cases endR.symm.trans propagated
          simp [← complete, ← satisfied, incomplete, unsatisfied] at finished
      | branched propagated _ _ chosenR decidedR afterR countedR =>
          cases endR.symm.trans propagated
          have chosen := choices p.trail q.trail coP coQ values
          rw [chosenL, chosenR] at chosen
          cases chosen
          refine .next ⟨Trail.value_eq_of_assign values decidedL decidedR, ?_, ?_⟩
          · rw [afterL, afterR]
            exact .cons ⟨values, rfl, rfl⟩ points
          · rw [countedL, countedR, points.length_eq]
            exact stats.addDecision.reach _

theorem step_matches (pureLiterals : Bool) (same : f.SameClauses g) (choices : f.ChoosesAlike h g)
    (coL : Trail.Coherent f.numVariables start) (coR : Trail.Coherent g.numVariables start')
    (soundL : Sound f start s) (soundR : Sound g start' u) (matched : Matches s u) :
    StepMatches (s.step f h pureLiterals start.size) (u.step g h pureLiterals start'.size) := by
  have transitionL := step_transition h pureLiterals coL soundL
  have transitionR := step_transition h pureLiterals coR soundR
  have coS := coL.grows soundL.grown
  have coU := coR.grows soundR.grown
  obtain ⟨outcome, p, q, endL, endR, conflict, fixpoint⟩ :=
    Progress.propagate_matches (p := ⟨s.trail, s.stats⟩) (q := ⟨u.trail, u.stats⟩) pureLiterals same
      coS coU ⟨matched.values, matched.stats⟩
  cases outcome with
  | conflict =>
      exact retreats_match (transitionL.retreats_of_conflict endL)
        (transitionR.retreats_of_conflict endR) matched.points (conflict rfl)
  | fixpoint =>
      exact advances_match same choices (coS.grows (Progress.grows_of_propagate endL))
        (coU.grows (Progress.grows_of_propagate endR)) endL endR transitionL transitionR
        matched.points (fixpoint rfl)

theorem Reaches.matches (same : f.SameClauses g) (choices : f.ChoosesAlike h g)
    (coL : Trail.Coherent f.numVariables start) (coR : Trail.Coherent g.numVariables start')
    (soundL : Sound f start s) (soundR : Sound g start' u) (matched : Matches s u)
    {last : SearchState} (reached : Reaches f h pureLiterals start.size s last) :
    ∃ last', Reaches g h pureLiterals start'.size u last' ∧ Matches last last' := by
  induction reached with
  | refl => exact ⟨u, .refl, matched⟩
  | @next v w reachedL taken ih =>
      obtain ⟨v', reachedR, matchedV⟩ := ih
      have step := step_matches pureLiterals same choices coL coR
        (reachedL.sound coL soundL) (reachedR.sound coR soundR) matchedV
      rw [taken] at step
      generalize taken' : v'.step g h pureLiterals start'.size = right at step
      cases step with
      | next matchedW => exact ⟨_, reachedR.next taken', matchedW⟩

end SearchState

namespace Formula

open SearchState

variable {f g : Formula} {h : Heuristic} {t u : Trail}

theorem completion_eq (count : f.numVariables = g.numVariables) (values : t.value = u.value) :
    f.completion t = g.completion u := by
  rw [completion, completion, vars_eq count, values]

theorem search_matches (same : f.SameClauses g) (choices : f.ChoosesAlike h g)
    (pureLiterals : Bool) (coL : Trail.Coherent f.numVariables t)
    (coR : Trail.Coherent g.numVariables u) (values : t.value = u.value) (stats : Stats) :
    ∃ s v, s.stats.Matches v.stats ∧
      (f.search h pureLiterals t stats = (.ok none, s) ∧
          g.search h pureLiterals u stats = (.ok none, v) ∨
        f.search h pureLiterals t stats = (.ok (some (f.completion s.trail)), s) ∧
          g.search h pureLiterals u stats = (.ok (some (g.completion v.trail)), v) ∧
          s.trail.value = v.trail.value) := by
  have soundL := sound_start f t stats
  have soundR := sound_start g u stats
  obtain ⟨last, s, reachedL, _, ended⟩ := search_ends h pureLiterals coL stats
  have start : Matches (.start t stats) (.start u stats) := ⟨values, .nil, .refl stats⟩
  obtain ⟨last', reachedR, matched⟩ := reachedL.matches same choices coL coR soundL soundR start
  have step := step_matches pureLiterals same choices coL coR
    (reachedL.sound coL soundL) (reachedR.sound coR soundR) matched
  generalize ended' : last'.step g h pureLiterals u.size = right at step
  rcases ended with ⟨ended, found⟩ | ⟨ended, refuted⟩
  · rw [ended] at step
    cases step with
    | @found _ v valuesEnd counted =>
        exact ⟨s, v, counted, .inr ⟨found, search_of_found coR reachedR ended', valuesEnd⟩⟩
  · rw [ended] at step
    cases step with
    | @refuted _ v counted =>
        exact ⟨s, v, counted, .inl ⟨refuted, search_of_refuted reachedR ended'⟩⟩

end Formula

end Clausal

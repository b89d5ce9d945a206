import Clausal.Heuristic
import Clausal.History
import Clausal.Propagation

/-!
Depth-first search with chronological backtracking, as a machine. Its state is the trail and the
counters, a stack with one frame for each open branch point, and a history of what happened to the
trail. `step` propagates and then either ends the search, branches, or retreats to the innermost
branch point that still has a value to try. The search ends because `work`, an upper bound on the
steps still to come, decreases with every step.
-/
namespace Clausal

/-- A branch point: how long the trail was before the decision, the decided variable, and the
value still to try, if there is one. -/
structure Frame where
  checkpoint : Nat
  var : Nat
  pending : Option Bool
deriving DecidableEq

/-- The innermost frame comes first. -/
structure SearchState where
  trail : Trail
  stats : Stats
  stack : List Frame
  history : History

/-- How a step or a whole search ends. -/
inductive SearchEnd where
  | model
  | refuted
  | fault (cause : Fault)

inductive SearchStep where
  | next (state : SearchState)
  | done (how : SearchEnd) (state : SearchState)

namespace SearchState

/-- The search starts on any trail and comes back to it when there is no model. -/
def start (t : Trail) (stats : Stats) : SearchState := ⟨t, stats, [], []⟩

/-- Takes over what propagation did; its new entries are the latest events. -/
def absorb (s : SearchState) (p : Progress) : SearchState :=
  { s with
    trail := p.trail
    stats := p.stats
    history := History.growth s.trail p.trail ++ s.history }

/-- Decides a variable at a new branch point. -/
def branch (s : SearchState) (v : Nat) (b : Bool) : SearchStep :=
  match s.trail.assign v b .decision with
  | .error e => .done (.fault e) s
  | .ok t =>
    .next {
      trail := t
      stats := s.stats.addDecision.reach (s.stack.length + 1)
      stack := ⟨s.trail.checkpoint, v, some !b⟩ :: s.stack
      history := .assigned ⟨v, b, .decision⟩ :: s.history }

/-- Leaves branch points from the innermost on until one has a value left to try. When none has,
the trail goes back to length `root`. -/
def retreat (root : Nat) (t : Trail) (stats : Stats) (history : History) :
    List Frame → SearchStep
  | [] =>
    match t.backtrackTo root with
    | .error e => .done (.fault e) ⟨t, stats, [], history⟩
    | .ok u => .done .refuted ⟨u, stats, [], .backtracked root :: history⟩
  | frame :: stack =>
    match t.backtrackTo frame.checkpoint with
    | .error e => .done (.fault e) ⟨t, stats, stack, history⟩
    | .ok u =>
      let stats := stats.addBacktrack
      let history := .backtracked frame.checkpoint :: history
      match frame.pending with
      | none => retreat root u stats history stack
      | some b =>
        match u.assign frame.var b .decision with
        | .error e => .done (.fault e) ⟨u, stats, stack, history⟩
        | .ok w =>
          .next {
            trail := w
            stats := stats.addDecision
            stack := { frame with pending := none } :: stack
            history := .assigned ⟨frame.var, b, .decision⟩ :: history }

/-- After a fixpoint: the search is over if nothing is left to decide or to satisfy. -/
def advance (f : Formula) (h : Heuristic) (s : SearchState) : SearchStep :=
  if s.trail.isComplete then .done .model s
  else
    match s.trail.allSatisfied f.clauses with
    | .error e => .done (.fault e) s
    | .ok true => .done .model s
    | .ok false =>
      match h.choose f s.trail with
      | .error e => .done (.fault e) s
      | .ok (v, b) => s.branch v b

def step (f : Formula) (h : Heuristic) (pureLiterals : Bool) (root : Nat) (s : SearchState) :
    SearchStep :=
  match Progress.propagate f pureLiterals ⟨s.trail, s.stats⟩ with
  | (.error e, p) => .done (.fault e) (s.absorb p)
  | (.ok .fixpoint, p) => (s.absorb p).advance f h
  | (.ok .conflict, p) =>
    let s := s.absorb p
    retreat root s.trail s.stats.addConflict s.history s.stack

/-- The checkpoints of a stack lie on the trail, the inner ones above the outer ones. -/
def Stacked (t : Trail) : List Frame → Prop
  | [] => True
  | frame :: stack => frame.checkpoint ≤ t.size ∧ Stacked (t.rewind frame.checkpoint) stack

/-- The number of nodes of a full binary tree of a given height. -/
def treeSize : Nat → Nat
  | 0 => 1
  | n + 1 => 2 * treeSize n + 1

theorem treeSize_mono {m n : Nat} (h : m ≤ n) : treeSize m ≤ treeSize n := by
  induction h with
  | refl => exact Nat.le_refl _
  | step _ ih => rw [treeSize]; omega

theorem treeSize_pos (n : Nat) : 0 < treeSize n := by
  cases n with
  | zero => decide
  | succ n => rw [treeSize]; omega

/-- Steps that the untried values of a stack can still cause. -/
def pendingWork (t : Trail) : List Frame → Nat
  | [] => 0
  | frame :: stack =>
    let below := t.rewind frame.checkpoint
    (if frame.pending.isSome then treeSize (below.free - 1) else 0) + pendingWork below stack

/-- Each step is a node of the binary tree over the free variables, so no more steps than that tree
has nodes can follow before the search retreats below the current trail. -/
def work (s : SearchState) : Nat :=
  treeSize s.trail.free + pendingWork s.trail s.stack

theorem stacked_of_grows {t u : Trail} {stack : List Frame} (h : Trail.Grows t u)
    (stacked : Stacked t stack) : Stacked u stack := by
  cases stack with
  | nil => trivial
  | cons frame stack =>
    obtain ⟨low, rest⟩ := stacked
    refine ⟨Nat.le_trans low h.size_le, ?_⟩
    rwa [h.rewind_eq low]

theorem pendingWork_of_grows {t u : Trail} {stack : List Frame} (h : Trail.Grows t u)
    (stacked : Stacked t stack) : pendingWork u stack = pendingWork t stack := by
  cases stack with
  | nil => rfl
  | cons frame stack => simp only [pendingWork, h.rewind_eq stacked.1]

/-- Branching replaces a tree by its two subtrees and so saves its root. -/
theorem branch_spec {s u : SearchState} {v : Nat} {b : Bool} (stacked : Stacked s.trail s.stack)
    (h : s.branch v b = .next u) : Stacked u.trail u.stack ∧ u.work < s.work := by
  rw [branch] at h
  split at h
  · cases h
  · rename_i t assigned
    cases h
    have back : t.rewind s.trail.checkpoint = s.trail := by
      rw [Trail.checkpoint, Trail.rewind_of_assign assigned (Nat.le_refl _), Trail.rewind_size]
    have size := Trail.size_of_assign assigned
    have free := Trail.free_of_assign assigned
    constructor
    · simp only [Stacked, back]
      exact ⟨by rw [Trail.checkpoint]; omega, stacked⟩
    · simp only [work, pendingWork, back, Option.isSome_some, if_true]
      rw [← free, treeSize, Nat.add_sub_cancel]
      omega

theorem retreat_spec {root : Nat} {t : Trail} {stats : Stats} {history : History}
    {stack : List Frame} {u : SearchState} (stacked : Stacked t stack)
    (h : retreat root t stats history stack = .next u) :
    Stacked u.trail u.stack ∧ u.work ≤ pendingWork t stack := by
  induction stack generalizing t stats history with
  | nil =>
    rw [retreat] at h
    split at h <;> cases h
  | cons frame stack ih =>
    obtain ⟨_, rest⟩ := stacked
    rw [retreat] at h
    split at h
    · cases h
    · rename_i below cut
      obtain ⟨_, rfl⟩ := Trail.backtrackTo_eq_ok cut
      dsimp only at h
      split at h
      · rename_i none
        obtain ⟨stackedU, less⟩ := ih rest h
        refine ⟨stackedU, Nat.le_trans less ?_⟩
        simp [pendingWork, none]
      · rename_i b pending
        split at h
        · cases h
        · rename_i w assigned
          cases h
          have low := Trail.size_rewind ‹frame.checkpoint ≤ t.size›
          have back : w.rewind frame.checkpoint = t.rewind frame.checkpoint := by
            rw [Trail.rewind_of_assign assigned (by omega), Trail.rewind_rewind (Nat.le_refl _)
              ‹frame.checkpoint ≤ t.size›]
          have size := Trail.size_of_assign assigned
          have free := Trail.free_of_assign assigned
          constructor
          · simp only [Stacked, back]
            exact ⟨by omega, rest⟩
          · simp [work, pendingWork, back, pending, ← free]

theorem absorb_spec {s : SearchState} {p : Progress} (stacked : Stacked s.trail s.stack)
    (grown : Trail.Grows s.trail p.trail) :
    Stacked (s.absorb p).trail (s.absorb p).stack ∧ (s.absorb p).work ≤ s.work := by
  refine ⟨stacked_of_grows grown stacked, ?_⟩
  have less := treeSize_mono grown.free_le
  simp only [work, absorb, pendingWork_of_grows grown stacked]
  omega

/-- A step keeps the stack on the trail and leaves less work than it found. -/
theorem step_spec {f : Formula} {h : Heuristic} {pureLiterals : Bool} {root : Nat}
    {s u : SearchState} (stacked : Stacked s.trail s.stack)
    (taken : s.step f h pureLiterals root = .next u) :
    Stacked u.trail u.stack ∧ u.work < s.work := by
  rw [step] at taken
  split at taken
  · cases taken
  · rename_i p propagated
    obtain ⟨stackedP, lessP⟩ := absorb_spec stacked (Progress.grows_of_propagate propagated)
    rw [advance] at taken
    split at taken
    · cases taken
    · split at taken
      · cases taken
      · cases taken
      · split at taken
        · cases taken
        · obtain ⟨stackedU, lessU⟩ := branch_spec stackedP taken
          exact ⟨stackedU, Nat.lt_of_lt_of_le lessU lessP⟩
  · rename_i p propagated
    obtain ⟨stackedP, lessP⟩ := absorb_spec stacked (Progress.grows_of_propagate propagated)
    obtain ⟨stackedU, lessU⟩ := retreat_spec stackedP taken
    refine ⟨stackedU, Nat.lt_of_le_of_lt lessU (Nat.lt_of_lt_of_le ?_ lessP)⟩
    have := treeSize_pos (s.absorb p).trail.free
    rw [work]
    omega

/-- Steps until the search is done. -/
def run (f : Formula) (h : Heuristic) (pureLiterals : Bool) (root : Nat) (s : SearchState)
    (stacked : Stacked s.trail s.stack) : SearchEnd × SearchState :=
  match taken : s.step f h pureLiterals root with
  | .done how u => (how, u)
  | .next u => run f h pureLiterals root u (step_spec stacked taken).1
termination_by s.work
decreasing_by exact (step_spec stacked taken).2

end SearchState

namespace Formula

/-- Extends the trail to all variables of the formula; those without a value become true. -/
def completeModel (f : Formula) (t : Trail) : Except Fault Assignment :=
  if t.covers f.numVariables then .ok (f.vars.map fun (v : Nat) => ((v : Int), (t.value v).getD true))
  else .error .outOfTable

/-- Searches for a model that agrees with the trail. -/
def search (f : Formula) (h : Heuristic) (pureLiterals : Bool) (t : Trail) (stats : Stats) :
    Except Fault (Option Assignment) × SearchState :=
  match SearchState.run f h pureLiterals t.checkpoint (.start t stats) trivial with
  | (.fault e, s) => (.error e, s)
  | (.refuted, s) => (.ok none, s)
  | (.model, s) =>
    match f.completeModel s.trail with
    | .error e => (.error e, s)
    | .ok model => (.ok (some model), s)

end Formula

end Clausal

import Mathlib.Algebra.Ring.Nat
import Clausal.Proofs.Loop
import Clausal.Proofs.Propagation.Forcing
import Clausal.Proofs.Search.Run

/-!
What a search can cost. The part of the tree that is still ahead consists of the subtree below the
current trail and, for each value left at a branch point, the subtree below that value. Weighed by
nodes it pays for the decisions, weighed by leaves for the conflicts: what a step spends, the part
that is ahead loses.
-/
namespace Clausal

namespace SearchState

/-- The weight of the values left at branch points, where `weight m` is the weight of a subtree with
`m` open variables out of `n`. -/
def waiting (weight : Nat → Nat) (n : Nat) : List (Trail × Frame) → Nat
  | [] => 0
  | (below, frame) :: points =>
    (if frame.pending.isSome then weight (n - (below.size + 1)) else 0) + waiting weight n points

/-- The weight of all that is ahead of a search. -/
def ahead (weight : Nat → Nat) (n : Nat) (s : SearchState) : Nat :=
  weight (n - s.trail.size) + waiting weight n s.points

variable {weight : Nat → Nat} {n : Nat}

theorem waiting_append_of_closed {inner outer : List (Trail × Frame)}
    (closed : ∀ point ∈ inner, point.2.pending = none) :
    waiting weight n (inner ++ outer) = waiting weight n outer := by
  induction inner with
  | nil => rfl
  | cons point inner ih =>
      obtain ⟨shut, later⟩ := List.forall_mem_cons.1 closed
      rw [List.cons_append, waiting, shut, ih later]
      simp

theorem weight_mono {cost : Nat} (splits : ∀ m, 2 * weight m + cost ≤ weight (m + 1)) {k m : Nat}
    (h : k ≤ m) : weight k ≤ weight m := by
  induction h with
  | refl => exact Nat.le_refl _
  | @step m _ ih =>
      have larger : weight m ≤ weight (m + 1) := by
        have := splits m
        omega
      exact Nat.le_trans ih larger

variable {f : Formula} {h : Heuristic} {pureLiterals : Bool} {start : Trail} {s u : SearchState}

/-- A step either branches at the cost of a node, or meets a conflict and gives up the subtree below
the current trail. Each way it decides once. -/
theorem spends_step (co : Trail.Coherent f.numVariables start) (sound : Sound f start s)
    (taken : s.step f h pureLiterals start.size = .next u) :
    u.stats.decisions = s.stats.decisions + 1 ∧
      (u.stats.conflicts = s.stats.conflicts ∧
          (∀ weight cost, (∀ m, 2 * weight m + cost ≤ weight (m + 1)) →
            ahead weight f.numVariables u + cost ≤ ahead weight f.numVariables s) ∨
        u.stats.conflicts = s.stats.conflicts + 1 ∧
          ∀ weight, ahead weight f.numVariables s =
            weight (f.numVariables - s.trail.size) + ahead weight f.numVariables u) := by
  cases transition_of_step co sound taken with
  | @branched p v b _ propagated _ _ _ decided after counted =>
      obtain ⟨follows, k, l, _, stats⟩ := Progress.forces_of_propagate propagated
      refine ⟨?_, .inl ⟨?_, fun weight cost splits => ?_⟩⟩
      · rw [counted, stats]
        rfl
      · rw [counted, stats]
        rfl
      · have grown : Trail.Grows s.trail p.trail := follows.grows
        have coU := ((co.grows sound.grown).grows grown).assign decided
        have size := Trail.size_of_assign decided
        have full := coU.size_le
        have longer := grown.size_le
        have split := splits (f.numVariables - u.trail.size)
        have room : f.numVariables - u.trail.size + 1 = f.numVariables - p.trail.size := by omega
        have shrinks : weight (f.numVariables - p.trail.size) ≤
            weight (f.numVariables - s.trail.size) := weight_mono splits (by omega)
        rw [room] at split
        rw [ahead, ahead, after, waiting, ← size]
        simp only [Option.isSome_some, if_true]
        omega
  | @retreated p _ propagated retreats =>
      obtain ⟨_, k, l, _, stats⟩ := Progress.forces_of_propagate propagated
      cases retreats with
      | @flipped _ inner outer below frame b split closed pending decided after counted =>
          refine ⟨?_, .inr ⟨?_, fun weight => ?_⟩⟩
          · rw [counted, stats]
            rfl
          · rw [counted, stats]
            rfl
          · rw [ahead, ahead, split, after, waiting_append_of_closed closed, waiting, waiting,
              pending, ← Trail.size_of_assign decided]
            simp

/-- A retreat leaves each open branch point at most once. -/
theorem backtracks_step_le (h : Heuristic) (pureLiterals : Bool)
    (co : Trail.Coherent f.numVariables start) (sound : Sound f start s) :
    (s.step f h pureLiterals start.size).state.stats.backtracks ≤
      s.stats.backtracks + s.stack.length := by
  have transition := step_transition h pureLiterals co sound
  generalize s.step f h pureLiterals start.size = taken at transition
  rw [← length_branchPoints s.trail s.stack]
  cases transition with
  | @found p propagated _ =>
      obtain ⟨_, _, _, _, stats⟩ := Progress.forces_of_propagate propagated
      have absorbed : (SearchStep.done .model (s.absorb p)).state.stats = p.stats := rfl
      rw [absorbed, stats]
      exact Nat.le_add_right _ _
  | branched propagated _ _ _ _ _ counted =>
      obtain ⟨_, _, _, _, stats⟩ := Progress.forces_of_propagate propagated
      rw [SearchStep.state, counted, stats]
      exact Nat.le_add_right _ _
  | retreated propagated retreats =>
      obtain ⟨_, _, _, _, stats⟩ := Progress.forces_of_propagate propagated
      cases retreats with
      | refuted _ _ counted =>
          rw [SearchStep.state, counted, stats]
          exact Nat.le_refl _
      | @flipped _ inner outer _ _ _ split _ _ _ _ counted =>
          have length := congrArg List.length split
          rw [List.length_append, List.length_cons] at length
          rw [SearchStep.state, counted, stats]
          change s.stats.backtracks + (inner.length + 1) ≤ s.stats.backtracks + s.points.length
          omega

theorem treeSize_splits (m : Nat) : 2 * treeSize m + 1 ≤ treeSize (m + 1) :=
  Nat.le_refl _

theorem treeSize_add_one (m : Nat) : treeSize m + 1 = 2 ^ (m + 1) := by
  induction m with
  | zero => rfl
  | succ m ih =>
      rw [treeSize, Nat.pow_succ, ← ih]
      omega

theorem leaves_splits (m : Nat) : 2 * 2 ^ m + 0 ≤ 2 ^ (m + 1) := by
  rw [Nat.pow_succ]
  omega

theorem ahead_treeSize_lt (co : Trail.Coherent f.numVariables start) (sound : Sound f start s)
    (taken : s.step f h pureLiterals start.size = .next u) :
    ahead treeSize f.numVariables u < ahead treeSize f.numVariables s := by
  rcases (spends_step co sound taken).2 with ⟨_, branched⟩ | ⟨_, retreated⟩
  · exact branched treeSize 1 treeSize_splits
  · have := retreated treeSize
    have := treeSize_pos (f.numVariables - s.trail.size)
    omega

/-- The counters of decisions and conflicts never grow by more than what is ahead loses. -/
theorem Reaches.spends (co : Trail.Coherent f.numVariables start) (sound : Sound f start s)
    (reached : Reaches f h pureLiterals start.size s u) :
    u.stats.decisions + ahead treeSize f.numVariables u ≤
        s.stats.decisions + ahead treeSize f.numVariables s ∧
      u.stats.conflicts + ahead (2 ^ ·) f.numVariables u ≤
        s.stats.conflicts + ahead (2 ^ ·) f.numVariables s := by
  induction reached with
  | refl => exact ⟨Nat.le_refl _, Nat.le_refl _⟩
  | @next u w reached taken ih =>
      obtain ⟨decisions, conflicts⟩ := ih
      have sound := reached.sound co sound
      have less := ahead_treeSize_lt co sound taken
      obtain ⟨decided, ⟨same, branched⟩ | ⟨one, retreated⟩⟩ := spends_step co sound taken
      · have := branched (2 ^ ·) 0 leaves_splits
        omega
      · have lost := retreated (2 ^ ·)
        have := Nat.two_pow_pos (f.numVariables - u.trail.size)
        omega

theorem ahead_pos {weight : Nat → Nat} (positive : ∀ m, 0 < weight m) (n : Nat) (s : SearchState) :
    0 < ahead weight n s :=
  Nat.lt_of_lt_of_le (positive _) (Nat.le_add_right _ _)

theorem ahead_start (weight : Nat → Nat) (n : Nat) (t : Trail) (stats : Stats) :
    ahead weight n (.start t stats) = weight (n - t.size) :=
  rfl

/-- The last step decides nothing more and meets at most one more conflict. -/
theorem stats_of_done {how : SearchEnd} (co : Trail.Coherent f.numVariables start)
    (sound : Sound f start s) (ended : s.step f h pureLiterals start.size = .done how u) :
    u.stats.decisions = s.stats.decisions ∧ u.stats.conflicts ≤ s.stats.conflicts + 1 := by
  cases transition_of_step co sound ended with
  | @found p propagated _ =>
      obtain ⟨_, _, _, _, stats⟩ := Progress.forces_of_propagate propagated
      have absorbed : (s.absorb p).stats = p.stats := rfl
      rw [absorbed, stats]
      exact ⟨rfl, Nat.le_succ _⟩
  | @retreated p _ propagated retreats =>
      obtain ⟨_, _, _, _, stats⟩ := Progress.forces_of_propagate propagated
      cases retreats with
      | refuted _ _ counted =>
          rw [counted, stats]
          exact ⟨rfl, Nat.le_refl _⟩

/-- A step as a round of the search. -/
def searchRound (f : Formula) (h : Heuristic) (pureLiterals : Bool) (root : Nat) (s : SearchState) :
    SearchState ⊕ (SearchEnd × SearchState) :=
  match s.step f h pureLiterals root with
  | .next u => .inl u
  | .done how u => .inr (how, u)

theorem step_of_searchRound {root : Nat} (round : s.searchRound f h pureLiterals root = .inl u) :
    s.step f h pureLiterals root = .next u := by
  rw [searchRound] at round
  split at round
  · rename_i taken
    cases round
    exact taken
  · cases round

theorem run_of_loops {root n : Nat} {r : SearchEnd × SearchState}
    (loops : Loops (searchRound f h pureLiterals root) n s r) (stacked : Stacked s.trail s.stack) :
    run f h pureLiterals root s stacked = r := by
  induction loops with
  | last round =>
      rw [searchRound] at round
      split at round
      · cases round
      · rename_i ended
        cases round
        exact run_of_done stacked ended
  | again round _ ih =>
      have taken := step_of_searchRound round
      rw [run_of_next stacked taken, ih]

/-- The rounds of a search are counted by the nodes of the tree over the open variables. -/
theorem run_loops (h : Heuristic) (pureLiterals : Bool) {t : Trail}
    (co : Trail.Coherent f.numVariables t) (stats : Stats) :
    ∃ n ≤ 2 ^ (f.numVariables - t.size + 1) - 1,
      Loops (searchRound f h pureLiterals t.size) n (.start t stats)
        (run f h pureLiterals t.size (.start t stats) trivial) := by
  have decreases (s u : SearchState) (sound : Sound f t s)
      (round : s.searchRound f h pureLiterals t.size = .inl u) :
      Sound f t u ∧ ahead treeSize f.numVariables u - 1 < ahead treeSize f.numVariables s - 1 := by
    have taken := step_of_searchRound round
    have less := ahead_treeSize_lt co sound taken
    have := ahead_pos treeSize_pos f.numVariables u
    exact ⟨sound.step co taken, by omega⟩
  obtain ⟨n, r, bound, loops⟩ :=
    exists_loops (Sound f t) (ahead treeSize f.numVariables · - 1) decreases
      (sound_start f t stats)
  have nodes := treeSize_add_one (f.numVariables - t.size)
  have := treeSize_pos (f.numVariables - t.size)
  rw [ahead_start] at bound
  exact ⟨n, by omega, run_of_loops loops trivial ▸ loops⟩

end SearchState

namespace Formula

open SearchState

variable {f : Formula} {t : Trail}

/-- With `m` open variables, a search decides at most as often as a binary tree of height `m` has
nodes other than its root, and meets at most as many conflicts as the tree has leaves. -/
theorem search_effort (co : Trail.Coherent f.numVariables t) (h : Heuristic) (pureLiterals : Bool)
    (stats : Stats) :
    (f.search h pureLiterals t stats).2.stats.decisions ≤
        stats.decisions + (2 ^ (f.numVariables - t.size + 1) - 2) ∧
      (f.search h pureLiterals t stats).2.stats.conflicts ≤
        stats.conflicts + 2 ^ (f.numVariables - t.size) := by
  obtain ⟨last, s, reached, sound, ended⟩ := search_ends h pureLiterals co stats
  have outcome : (f.search h pureLiterals t stats).2 = s ∧
      ∃ how, last.step f h pureLiterals t.size = .done how s := by
    rcases ended with ⟨ended, outcome⟩ | ⟨ended, outcome⟩ <;> exact ⟨by rw [outcome], _, ended⟩
  obtain ⟨same, how, ended⟩ := outcome
  obtain ⟨lastDecisions, lastConflicts⟩ := stats_of_done co sound ended
  obtain ⟨decisions, conflicts⟩ := reached.spends co (sound_start f t stats)
  have nodes := treeSize_add_one (f.numVariables - t.size)
  have := ahead_pos treeSize_pos f.numVariables last
  have : 0 < ahead (2 ^ ·) f.numVariables last := ahead_pos Nat.two_pow_pos _ _
  rw [ahead_start] at decisions conflicts
  rw [same]
  simp only [SearchState.start] at decisions conflicts
  omega

end Formula

end Clausal

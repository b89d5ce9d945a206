import Clausal.Proofs.Propagation.Rounds
import Clausal.Proofs.Search.Effort
import Clausal.Proofs.Search.Exploration
import Clausal.Proofs.Solver

/-!
The solver comes to an end, and how soon. The loops of propagation are bounded by the open
variables, the loop of the search by the tree over them, in which it visits no node twice; a retreat
leaves each open branch point at most once.
-/
namespace Clausal.Formula

open SearchState

variable {f : Formula} {t : Trail}

/-- Every loop of a search from a trail over the variables of the formula ends after a bounded
number of rounds. No two steps of the search start with the same decisions, and a formula over `n`
variables is solved with at most `2 ^ (n + 1) - 2` decisions and `2 ^ n` conflicts. -/
theorem search_terminates (grown : Trail.Grows (.empty f.numVariables) t) (h : Heuristic)
    (pureLiterals : Bool) (stats : Stats) :
    (∀ p : Progress, Trail.Grows (.empty f.numVariables) p.trail →
      (∃ n ≤ f.numVariables - p.trail.size + 1,
        Loops (Progress.passRound f) n p (p.unitPropagate f)) ∧
      ∃ n ≤ f.numVariables - p.trail.size + 1,
        Loops (Progress.ruleRound f pureLiterals) n p (p.propagate f pureLiterals)) ∧
    (∃ n ≤ 2 ^ (f.numVariables - t.size + 1) - 1,
      Loops (searchRound f h pureLiterals t.size) n (.start t stats)
        (run f h pureLiterals t.size (.start t stats) trivial)) ∧
    (∀ s, Reaches f h pureLiterals t.size (.start t stats) s →
      (s.step f h pureLiterals t.size).state.stats.backtracks ≤
          s.stats.backtracks + s.stack.length ∧
        ∀ u w, s.step f h pureLiterals t.size = .next u → Reaches f h pureLiterals t.size u w →
          w.trail.decisions ≠ s.trail.decisions) ∧
    ∀ verify, f.SolvedWith ⟨h, pureLiterals, verify⟩ fun r =>
      r.stats.decisions ≤ 2 ^ (f.numVariables + 1) - 2 ∧
        r.stats.conflicts ≤ 2 ^ f.numVariables := by
  have empty := Trail.coherent_empty f.numVariables
  have co := empty.grows grown
  have sound := sound_start f t stats
  refine ⟨fun p grownP => ?_, run_loops h pureLiterals co stats, fun s reached => ⟨?_, ?_⟩, ?_⟩
  · have coP := empty.grows grownP
    exact ⟨Progress.unitPropagate_loops coP, Progress.propagate_loops pureLiterals coP⟩
  · exact backtracks_step_le h pureLiterals co (reached.sound co sound)
  · intro u w taken later
    exact later.decisions_ne co (reached.sound co sound) (reached.layered co sound .start) taken
  · refine fun verify => solvedWith_of fun searchable => ?_
    obtain ⟨r, solved, counted⟩ := exists_solve searchable h pureLiterals
    obtain ⟨decisions, conflicts⟩ := search_effort empty h pureLiterals {}
    have none_ : (Trail.empty f.numVariables).size = 0 := rfl
    refine ⟨r, solved verify, ?_⟩
    rcases counted with counted | counted
    · rw [counted]
      exact ⟨Nat.zero_le _, Nat.zero_le _⟩
    · rw [none_, Nat.sub_zero, Nat.zero_add] at decisions conflicts
      exact ⟨counted ▸ decisions, counted ▸ conflicts⟩

theorem search_terminates_square :
    let f : Formula := ⟨2, [[1, 2], [-1, 2], [1, -2], [-1, -2]], by decide, by decide⟩
    let t : Trail := ⟨2, #[none, none, some false], [⟨2, false, .decision⟩], 1⟩
    Trail.Grows (.empty f.numVariables) t ∧
      (∃ n ≤ 3, Loops (searchRound f .order true t.size) n (.start t {})
        (run f .order true t.size (.start t {}) trivial)) ∧
      ∃ r, f.solve {} = .ok r ∧ r.stats.decisions ≤ 6 ∧ r.stats.conflicts ≤ 4 := by
  intro f t
  have decided : (Trail.empty f.numVariables).assign 2 false .decision = .ok t := rfl
  have grown : Trail.Grows (.empty f.numVariables) t := .assign .refl decided
  obtain ⟨_, rounds, _, answers⟩ := search_terminates grown .order true {}
  exact ⟨grown, rounds, (answers true).answer (by decide)⟩

end Clausal.Formula

import Clausal.Proofs.Reordering.Search
import Clausal.Proofs.Solver

/-!
Answers do not depend on how a formula is written. Reordering clauses and literals changes neither
the model nor the counters, apart from the propagations before a conflict. In variable order the
clauses may even be repeated.
-/
namespace Clausal.Formula

variable {f g : Formula} (config : Config)

theorem isSearchable_iff (same : f.SameClauses g) : f.IsSearchable ↔ g.IsSearchable := by
  rw [IsSearchable, IsSearchable, same.hasEmptyClause_eq, same.count]

theorem solve_matches (same : f.SameClauses g) (choices : f.ChoosesAlike config.heuristic g)
    (searchable : f.IsSearchable) :
    ∃ r s, f.solve config = .ok r ∧ g.solve config = .ok s ∧ r.verdict = s.verdict ∧
      r.assignment = s.assignment ∧ r.stats.Matches s.stats := by
  cases empty : f.hasEmptyClause with
  | true =>
      have empty' := same.hasEmptyClause_eq ▸ empty
      exact ⟨_, _, solve_of_hasEmptyClause config empty, solve_of_hasEmptyClause config empty', rfl,
        rfl, .refl _⟩
  | false =>
      have empty' := same.hasEmptyClause_eq ▸ empty
      have searchable' := (isSearchable_iff same).1 searchable
      have coL := Trail.coherent_empty f.numVariables
      have coR := Trail.coherent_empty g.numVariables
      have values : (Trail.empty f.numVariables).value = (Trail.empty g.numVariables).value := by
        funext v
        rw [Trail.value_empty, Trail.value_empty]
      obtain ⟨s, u, counted, ⟨refutedL, refutedR⟩ | ⟨foundL, foundR, valuesEnd⟩⟩ :=
        search_matches same choices config.pureLiterals coL coR values {}
      · refine ⟨⟨.unsatisfiable, none, s.stats⟩, ⟨.unsatisfiable, none, u.stats⟩, ?_, ?_, rfl, rfl,
          counted⟩
        · rw [solve_of_refuted config searchable empty refutedL]
        · rw [solve_of_refuted config searchable' empty' refutedR]
      · obtain ⟨coS, satisfied⟩ := of_search_found coL foundL
        obtain ⟨coU, satisfied'⟩ := of_search_found coR foundR
        exact ⟨_, _, solve_of_found config searchable coS satisfied foundL,
          solve_of_found config searchable' coU satisfied' foundR, rfl,
          congrArg some (completion_eq same.count valuesEnd), counted⟩

/-- Reordering the clauses and their literals changes nothing about the answer but the number of
propagations, and that only if there is a conflict. In variable order it is enough that the clauses
are the same as sets of literals. If one formula is refused a trail, so is the other one. -/
theorem solve_reordered (count : f.numVariables = g.numVariables)
    (alike : Reordered f.clauses g.clauses ∨
      config.heuristic = .order ∧ f.clauseSets = g.clauseSets) :
    (f.IsSearchable → ∃ r s, f.solve config = .ok r ∧ g.solve config = .ok s ∧
      r.verdict = s.verdict ∧ r.assignment = s.assignment ∧
      { r.stats with propagations := s.stats.propagations } = s.stats ∧
      (r.stats.conflicts = 0 → r.stats.propagations = s.stats.propagations)) ∧
    (¬f.IsSearchable → ∃ e, f.solve config = .error (.start e) ∧
      g.solve config = .error (.start e)) := by
  obtain ⟨same, choices⟩ : f.SameClauses g ∧ f.ChoosesAlike config.heuristic g := by
    rcases alike with reordered | ⟨order, sets⟩
    · exact ⟨sameClauses_of_reordered count reordered,
        Heuristic.choosesAlike_of_reordered config.heuristic count reordered⟩
    · rw [order]
      exact ⟨sameClauses_of_clauseSets count sets, Heuristic.choosesAlike_order count⟩
  constructor
  · intro searchable
    obtain ⟨r, s, solvedL, solvedR, verdict, assignment, rest, propagations⟩ :=
      solve_matches config same choices searchable
    exact ⟨r, s, solvedL, solvedR, verdict, assignment, rest, propagations⟩
  · intro crowded
    obtain ⟨e, untracked, refused⟩ := solve_of_not_isSearchable crowded
    obtain ⟨e', untracked', refused'⟩ :=
      solve_of_not_isSearchable (mt (isSearchable_iff same).2 crowded)
    rw [← count, untracked] at untracked'
    cases untracked'
    exact ⟨e, refused config, refused' config⟩

theorem solve_reordered_pair :
    let f : Formula := ⟨2, [[1, 2], [-1, 2]], by decide, by decide⟩
    let swapped : Formula := ⟨2, [[2, -1], [2, 1]], by decide, by decide⟩
    let repeated : Formula := ⟨2, [[2, 1], [1, 2], [-1, 2]], by decide, by decide⟩
    (Reordered f.clauses swapped.clauses ∧
      ∃ r s, f.solve ⟨.mostLiteral, true, true⟩ = .ok r ∧
        swapped.solve ⟨.mostLiteral, true, true⟩ = .ok s ∧ r.assignment = s.assignment) ∧
    f.clauseSets = repeated.clauseSets ∧
      ∃ r s, f.solve ⟨.order, false, true⟩ = .ok r ∧ repeated.solve ⟨.order, false, true⟩ = .ok s ∧
        r.assignment = s.assignment := by
  intro f swapped repeated
  have reordered : Reordered f.clauses swapped.clauses :=
    ⟨[[-1, 2], [1, 2]], .swap .., .cons (.swap ..) (.cons (.swap ..) .nil)⟩
  have sets : f.clauseSets = repeated.clauseSets := by decide
  obtain ⟨r, s, solvedF, solvedS, _, assignment, _⟩ :=
    (solve_reordered (f := f) (g := swapped) ⟨.mostLiteral, true, true⟩ rfl
      (.inl reordered)).1 (by decide)
  obtain ⟨r', s', solvedF', solvedR, _, assignment', _⟩ :=
    (solve_reordered (f := f) (g := repeated) ⟨.order, false, true⟩ rfl
      (.inr ⟨rfl, sets⟩)).1 (by decide)
  exact ⟨⟨reordered, r, s, solvedF, solvedS, assignment⟩, sets, r', s', solvedF', solvedR,
    assignment'⟩

end Clausal.Formula

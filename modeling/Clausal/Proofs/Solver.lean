import Clausal.Proofs.Reading
import Clausal.Proofs.Search.Greatest
import Clausal.Proofs.Search.Replay
import Clausal.Solver

/-!
The solver decides satisfiability. Whatever its configuration, it answers without a fault if there
can be a trail over the variables, it calls a formula satisfiable exactly when a valuation makes all
clauses true, and the model that it hands out covers the variables of the formula and makes all
clauses true. So checking the model first makes no difference.
-/
namespace Clausal.Formula

variable {f : Formula} {config : Config} {p q : Solution → Prop}

/-- A search needs room for a trail over the variables; an empty clause makes it needless. -/
def IsSearchable (f : Formula) : Prop :=
  f.hasEmptyClause = true ∨ (f.numVariables : Int) + 1 < Trail.maxCells

instance (f : Formula) : Decidable f.IsSearchable := inferInstanceAs (Decidable (_ ∨ _))

/-- What comes of solving the formula: a solution with the property or, where a search is needed and
there is no room for its trail, the reason why there is no trail. -/
structure SolvedWith (f : Formula) (config : Config) (p : Solution → Prop) : Prop where
  answer : f.IsSearchable → ∃ r, f.solve config = .ok r ∧ p r
  refusal : ¬f.IsSearchable →
    ∃ e, Trail.create f.numVariables = .error e ∧ f.solve config = .error (.start e)

theorem IsSearchable.create (searchable : f.IsSearchable) (nonempty : f.hasEmptyClause = false) :
    Trail.create f.numVariables = .ok (.empty f.numVariables) := by
  rcases searchable with empty | room
  · cases nonempty.symm.trans empty
  · exact Trail.create_of_lt room

theorem solve_of_hasEmptyClause (config : Config) (empty : f.hasEmptyClause = true) :
    f.solve config = .ok ⟨.unsatisfiable, none, {}⟩ := by
  rw [solve, solveBy, if_pos empty]

theorem solve_of_create_error {e : StartError} (nonempty : f.hasEmptyClause = false)
    (untracked : Trail.create f.numVariables = .error e) (config : Config) :
    f.solve config = .error (.start e) := by
  rw [solve, solveBy, if_neg (Bool.not_eq_true _ ▸ nonempty), untracked]

theorem solve_of_uncountable (nonempty : f.hasEmptyClause = false)
    (many : 0x7FFFFFFFFFFFFFFF ≤ f.numVariables) (config : Config) :
    f.solve config = .error (.start .uncountable) :=
  solve_of_create_error nonempty (Trail.create_of_le many) config

theorem solve_of_not_isSearchable (crowded : ¬f.IsSearchable) :
    ∃ e, Trail.create f.numVariables = .error e ∧
      ∀ config, f.solve config = .error (.start e) := by
  obtain ⟨nonempty, full⟩ := not_or.1 crowded
  obtain ⟨e, untracked⟩ := Trail.exists_create_eq_error (Int.not_lt.1 full)
  exact ⟨e, untracked, solve_of_create_error (Bool.not_eq_true _ ▸ nonempty) untracked⟩

theorem isSearchable_of_solve {r : Solution} (solved : f.solve config = .ok r) :
    f.IsSearchable := by
  by_contra crowded
  obtain ⟨e, _, refused⟩ := solve_of_not_isSearchable crowded
  cases solved.symm.trans (refused config)

theorem solvedWith_of (answer : f.IsSearchable → ∃ r, f.solve config = .ok r ∧ p r) :
    f.SolvedWith config p where
  answer := answer
  refusal crowded := by
    obtain ⟨e, untracked, refused⟩ := solve_of_not_isSearchable crowded
    exact ⟨e, untracked, refused config⟩

theorem not_holds_of_hasEmptyClause (h : f.hasEmptyClause = true) (ν : Nat → Bool) :
    f.holds ν = false := by
  obtain ⟨c, hc, empty⟩ := List.any_eq_true.1 h
  rw [List.isEmpty_iff] at empty
  by_contra model
  rw [Bool.not_eq_false] at model
  obtain ⟨l, hl, _⟩ := holds_iff.1 model c hc
  rw [empty] at hl
  cases hl

/-- Two clauses that are complementary literals contradict each other. -/
theorem not_holds_of_units {l : Literal} (asserts : [l] ∈ f.clauses) (denies : [-l] ∈ f.clauses)
    (ν : Nat → Bool) : f.holds ν = false := by
  have only {k : Literal} (hk : [k] ∈ f.clauses) (model : f.holds ν = true) :
      Literal.holds ν k = true := by
    obtain ⟨m, hm, true_⟩ := holds_iff.1 model [k] hk
    exact List.mem_singleton.1 hm ▸ true_
  have nonzero : l ≠ 0 := ne_zero_of_mem asserts List.mem_cons_self
  exact Bool.eq_false_iff.2 fun model =>
    Literal.not_holds_neg nonzero (only asserts model) (only denies model)

theorem solve_of_found (config : Config) {s : SearchState} (searchable : f.IsSearchable)
    (co : Trail.Coherent f.numVariables s.trail) (satisfied : f.satisfiedBy s.trail.value = true)
    (found : f.search config.heuristic config.pureLiterals (.empty f.numVariables) {} =
      (.ok (some (f.completion s.trail)), s)) :
    f.solve config = .ok ⟨.satisfiable, some (f.completion s.trail), s.stats⟩ := by
  have nonempty : f.hasEmptyClause = false := by
    by_contra empty
    rw [Bool.not_eq_false] at empty
    have model := holds_of_satisfiedBy satisfied
    rw [not_holds_of_hasEmptyClause empty] at model
    cases model
  simp [solve, solveBy, nonempty, searchable.create nonempty, found, conclude,
    satisfiedBy_completion co satisfied]

theorem solve_of_refuted (config : Config) {s : SearchState} (searchable : f.IsSearchable)
    (nonempty : f.hasEmptyClause = false)
    (refuted : f.search config.heuristic config.pureLiterals (.empty f.numVariables) {} =
      (.ok none, s)) :
    f.solve config = .ok ⟨.unsatisfiable, none, s.stats⟩ := by
  simp [solve, solveBy, nonempty, searchable.create nonempty, refuted, conclude]

/-- The solver refutes a formula without models and completes a trail that satisfies the formula
otherwise. -/
theorem solve_spec (searchable : f.IsSearchable) (config : Config) :
    ∃ stats, f.solve config = .ok ⟨.unsatisfiable, none, stats⟩ ∧ (∀ ν, f.holds ν = false) ∨
      ∃ t, f.solve config = .ok ⟨.satisfiable, some (f.completion t), stats⟩ ∧
        Trail.Coherent f.numVariables t ∧ f.satisfiedBy t.value = true := by
  cases empty : f.hasEmptyClause with
  | true =>
      exact ⟨{}, .inl ⟨solve_of_hasEmptyClause config empty, not_holds_of_hasEmptyClause empty⟩⟩
  | false =>
      have co := Trail.coherent_empty f.numVariables
      obtain ⟨s, ⟨refuted, _, none_⟩ | ⟨found, grown, satisfied⟩⟩ :=
        search_spec co config.heuristic config.pureLiterals {}
      · exact ⟨s.stats, .inl ⟨solve_of_refuted config searchable empty refuted,
          fun ν => none_ ν (Trail.agrees_empty f.numVariables ν)⟩⟩
      · have coS := co.grows grown
        exact ⟨s.stats, .inr ⟨s.trail, solve_of_found config searchable coS satisfied found, coS,
          satisfied⟩⟩

/-- An answer that is given is the right one. -/
theorem verdict_of_solve {s : Solution} (h : f.solve config = .ok s) :
    (s.verdict = .satisfiable ↔ ∃ ν, f.holds ν = true) ∧
      (s.verdict = .unsatisfiable ↔ ∀ ν, f.holds ν = false) := by
  obtain ⟨stats, ⟨refuted, none_⟩ | ⟨t, found, _, satisfied⟩⟩ :=
    solve_spec (isSearchable_of_solve h) config
  · cases h.symm.trans refuted
    have modelless : ¬∃ ν, f.holds ν = true := by
      rintro ⟨ν, model⟩
      rw [none_ ν] at model
      cases model
    exact ⟨iff_of_false nofun modelless, iff_of_true rfl none_⟩
  · cases h.symm.trans found
    have model := holds_of_satisfiedBy satisfied
    have refutable : ¬∀ ν, f.holds ν = false := by
      intro none_
      rw [none_ _] at model
      cases model
    exact ⟨iff_of_true rfl ⟨_, model⟩, iff_of_false nofun refutable⟩

/-- A formula is called satisfiable if it is, and then a model of it is handed out. -/
theorem solve_model (f : Formula) (config : Config) :
    f.SolvedWith config fun r => (r.verdict = .satisfiable ↔ ∃ ν, f.holds ν = true) ∧
      (r.verdict = .satisfiable → ∃ ν model, f.holds ν = true ∧ r.assignment = some model ∧
        ∀ v ∈ f.vars, model.valuation v = some (ν v)) := by
  refine solvedWith_of fun searchable => ?_
  obtain ⟨stats, ⟨refuted, _⟩ | ⟨t, found, _, satisfied⟩⟩ := solve_spec searchable config
  · exact ⟨_, refuted, (verdict_of_solve refuted).1, nofun⟩
  · exact ⟨_, found, (verdict_of_solve found).1, fun _ =>
      ⟨_, _, holds_of_satisfiedBy satisfied, rfl, fun _ => valuation_completion⟩⟩

theorem SolvedWith.imp (solved : f.SolvedWith config p) (h : ∀ r, p r → q r) :
    f.SolvedWith config q where
  answer searchable := by
    obtain ⟨r, answered, property⟩ := solved.answer searchable
    exact ⟨r, answered, h r property⟩
  refusal := solved.refusal

/-- Lists of literals that are accepted are decided. -/
theorem solve_ofLists {clauses : List (List Int)} {count : Option Int}
    (accepted : ofLists clauses count = .ok f) (config : Config) :
    f.SolvedWith config fun r =>
      (r.verdict = .satisfiable ↔ ∃ ν, ∀ c ∈ clauses, Clause.holds ν c = true) ∧
      (r.verdict = .unsatisfiable ↔ ¬∃ ν, ∀ c ∈ clauses, Clause.holds ν c = true) := by
  obtain ⟨same, _⟩ := ofLists_eq_ok accepted
  refine solvedWith_of fun searchable => ?_
  obtain ⟨r, solved, _⟩ := (f.solve_model config).answer searchable
  obtain ⟨satisfiable, unsatisfiable⟩ := verdict_of_solve solved
  refine ⟨r, solved, ?_, ?_⟩
  · simpa only [holds_of_clauses_eq same] using satisfiable
  · simpa only [not_exists, ← holds_of_clauses_eq same, Bool.not_eq_true] using unsatisfiable

/-- The answer is the same whether or not the model is checked, and its counters are those of the
search, if there was one. -/
theorem exists_solve (searchable : f.IsSearchable) (h : Heuristic) (pureLiterals : Bool) :
    ∃ r, (∀ verify, f.solve ⟨h, pureLiterals, verify⟩ = .ok r) ∧
      (r.stats = {} ∨ r.stats = (f.search h pureLiterals (.empty f.numVariables) {}).2.stats) := by
  cases empty : f.hasEmptyClause with
  | true =>
      exact ⟨⟨.unsatisfiable, none, {}⟩,
        fun verify => solve_of_hasEmptyClause ⟨h, pureLiterals, verify⟩ empty, .inl rfl⟩
  | false =>
      have co := Trail.coherent_empty f.numVariables
      obtain ⟨s, ⟨refuted, _⟩ | ⟨found, grown, satisfied⟩⟩ := search_spec co h pureLiterals {}
      · refine ⟨⟨.unsatisfiable, none, s.stats⟩, fun verify => ?_, .inr (by rw [refuted])⟩
        exact solve_of_refuted ⟨h, pureLiterals, verify⟩ searchable empty refuted
      · refine ⟨⟨.satisfiable, some (f.completion s.trail), s.stats⟩, fun verify => ?_,
          .inr (by rw [found])⟩
        exact solve_of_found ⟨h, pureLiterals, verify⟩ searchable (co.grows grown) satisfied found

/-- The solver decides the clauses that the data lists, under every configuration alike. Only if no
clause is empty and there is no room for a trail over so many variables, it is refused the trail. -/
theorem solve_decides {data : Datum} {n : Nat} (accepted : ofData data (.integer n) = .ok f) :
    ∃ clauses verdict, data.Lists clauses ∧ f.numVariables = n ∧
      (verdict = .satisfiable ↔ ∃ ν, ∀ c ∈ clauses, Clause.holds ν c = true) ∧
      ∀ config, f.SolvedWith config fun r => r.verdict = verdict ∧
        (verdict = .unsatisfiable → r.assignment = none) ∧
        (verdict = .satisfiable → ∃ model, r.assignment = some model ∧
          model.map Prod.fst = (List.range' 1 n).map Nat.cast ∧
          ∀ c ∈ clauses, Clause.satisfiedBy model.valuation c = true) := by
  obtain ⟨clauses, lists, rfl, same⟩ := ofData_spec accepted
  by_cases sat : ∃ ν, f.holds ν = true
  · refine ⟨clauses, .satisfiable, lists, rfl, ?_, fun config => solvedWith_of fun searchable => ?_⟩
    · simpa only [holds_of_clauses_eq same, true_iff] using sat
    · obtain ⟨stats, ⟨_, none_⟩ | ⟨t, found, co, satisfied⟩⟩ := solve_spec searchable config
      · obtain ⟨ν, model⟩ := sat
        rw [none_ ν] at model
        cases model
      · refine ⟨_, found, rfl, nofun, fun _ => ⟨_, rfl, keys_completion f t, ?_⟩⟩
        exact (satisfiedBy_of_clauses_eq same).1 (satisfiedBy_completion co satisfied)
  · refine ⟨clauses, .unsatisfiable, lists, rfl, ?_,
      fun config => solvedWith_of fun searchable => ?_⟩
    · simpa only [holds_of_clauses_eq same, reduceCtorEq, false_iff] using sat
    · obtain ⟨stats, ⟨refuted, _⟩ | ⟨t, _, _, satisfied⟩⟩ := solve_spec searchable config
      · exact ⟨_, refuted, rfl, fun _ => rfl, nofun⟩
      · exact absurd ⟨_, holds_of_satisfiedBy satisfied⟩ sat

theorem solve_decides_repetition :
    let data := Datum.list [.list [.integer 1, .integer 2, .integer 1], .list [.integer (-1)]]
    ∃ f, ofData data (.integer 2) = .ok f ∧
      ∃ r, f.solve {} = .ok r ∧ r.verdict = .satisfiable := by
  intro data
  obtain ⟨f, accepted⟩ : ∃ f, ofData data (.integer 2) = .ok f := ⟨_, rfl⟩
  obtain ⟨clauses, verdict, lists, count, decided, answers⟩ := solve_decides (n := 2) accepted
  have same : clauses = [[1, 2, 1], [-1]] :=
    lists.unique ⟨_, rfl, .cons rfl (.cons rfl .nil)⟩
  have satisfiable : verdict = .satisfiable :=
    decided.2 ⟨fun v => v == 2, by rw [same]; decide⟩
  have searchable : f.IsSearchable := .inr (by rw [count]; decide)
  obtain ⟨r, solved, agreed, _⟩ := (answers {}).answer searchable
  exact ⟨f, accepted, r, solved, agreed.trans satisfiable⟩

/-- The two clauses contradict each other, but the table for so many variables cannot be counted. -/
theorem solve_decides_uncountable :
    let data := Datum.list [.list [.integer 1], .list [.integer (-1)]]
    ∃ f, ofData data (.integer 0x7FFFFFFFFFFFFFFF) = .ok f ∧ (∀ ν, f.holds ν = false) ∧
      ∀ config, f.solve config = .error (.start .uncountable) := by
  intro data
  obtain ⟨f, accepted⟩ : ∃ f, ofData data (.integer 0x7FFFFFFFFFFFFFFF) = .ok f := ⟨_, rfl⟩
  obtain ⟨clauses, lists, count, same⟩ := ofData_spec (n := 0x7FFFFFFFFFFFFFFF) accepted
  have given : clauses = [[1], [-1]] := lists.unique ⟨_, rfl, .cons rfl (.cons rfl .nil)⟩
  have clauses : f.clauses = [[1], [-1]] := by
    rw [same, given]
    rfl
  have nonempty : f.hasEmptyClause = false := by
    rw [hasEmptyClause, clauses]
    rfl
  exact ⟨f, accepted, not_holds_of_units (l := 1) (by simp [clauses]) (by simp [clauses]),
    solve_of_uncountable nonempty (Nat.le_of_eq count.symm)⟩

/-- No operation of a search is refused: each assignment finds its variable open, each cut keeps a
part of the trail, the heuristic always finds a variable, and a model passes the check. So the
answer is the same with the check and without it, also where it is that there is no trail to search
on. -/
theorem solve_never_faults (f : Formula) (h : Heuristic) (pureLiterals : Bool) :
    ((f.IsSearchable → ∃ r, ∀ verify, f.solve ⟨h, pureLiterals, verify⟩ = .ok r) ∧
      (¬f.IsSearchable → ∃ e, ∀ verify, f.solve ⟨h, pureLiterals, verify⟩ = .error (.start e))) ∧
    (∃ found s, f.search h pureLiterals (.empty f.numVariables) {} = (.ok found, s) ∧
      s.history.Replays f.numVariables (.empty f.numVariables) s.trail ∧
      ∀ model, found = some model → f.satisfiedBy model.valuation = true) ∧
    ∀ s p, SearchState.Reaches f h pureLiterals 0 (.start (.empty f.numVariables) {}) s →
      Progress.propagate f pureLiterals ⟨s.trail, s.stats⟩ = (.ok .fixpoint, p) →
      p.trail.isComplete = false →
      ∃ v b, h.choose f p.trail = .ok (v, b) ∧ p.trail.IsOpen f.numVariables v := by
  have co := Trail.coherent_empty f.numVariables
  obtain ⟨found, s, ended, replays⟩ := search_replays co h pureLiterals {}
  refine ⟨⟨fun searchable => ?_, fun crowded => ?_⟩, ⟨found, s, ended, replays, ?_⟩, ?_⟩
  · obtain ⟨r, solved, _⟩ := exists_solve searchable h pureLiterals
    exact ⟨r, solved⟩
  · obtain ⟨e, _, refused⟩ := solve_of_not_isSearchable crowded
    exact ⟨e, fun verify => refused ⟨h, pureLiterals, verify⟩⟩
  · rintro model rfl
    obtain ⟨_, ⟨refuted, _⟩ | ⟨found, grown, satisfied⟩⟩ := search_spec co h pureLiterals {}
    · cases ended.symm.trans refuted
    · cases ended.symm.trans found
      exact satisfiedBy_completion (co.grows grown) satisfied
  · intro u p reached propagated incomplete
    have sound := reached.sound co (SearchState.sound_start f _ {})
    have grown : Trail.Grows u.trail p.trail := Progress.grows_of_propagate propagated
    exact h.choose_spec ((co.grows sound.grown).grows grown) incomplete

/-- Going through the variables in order and without pure literals, the solver finds the greatest
model, comparing models variable by variable with true above false, if there is room for its trail.
So its answer depends on nothing but the models. -/
theorem solve_greatest {ν : Nat → Bool} (model : f.holds ν = true) :
    ∃ values, IsGreatest f.models values ∧
      ∀ g : Formula, g.numVariables = f.numVariables → (∀ μ, g.holds μ = f.holds μ) →
        ∀ verify, g.SolvedWith ⟨.order, false, verify⟩ fun r => r.verdict = .satisfiable ∧
          r.assignment = some ((f.vars.map Nat.cast).zip values) := by
  obtain ⟨s, _, _, _, greatest⟩ := exists_search_isGreatest model
  refine ⟨_, greatest, fun g count same verify => ?_⟩
  have vars : g.vars = f.vars := by rw [vars, vars, count]
  have models : g.models = f.models := by simp only [Formula.models, same, vars]
  obtain ⟨u, found, co, satisfied, greatest'⟩ := exists_search_isGreatest ((same ν).trans model)
  rw [models] at greatest'
  refine solvedWith_of fun searchable =>
    ⟨_, solve_of_found ⟨.order, false, verify⟩ searchable co satisfied found, rfl, ?_⟩
  rw [← greatest'.unique greatest, completion, vars, List.zip_map']

theorem solve_greatest_choice :
    let f : Formula := ⟨2, [[-1, -2], [1, 2]], by decide, by decide⟩
    f.holds (fun v => v == 2) = true ∧
      ∃ r, f.solve ⟨.order, false, true⟩ = .ok r ∧ r.assignment = some [(1, true), (2, false)] := by
  intro f
  have model : f.holds (fun v => v == 2) = true := by decide
  obtain ⟨values, greatest, answers⟩ := solve_greatest model
  obtain ⟨r, solved, _, assignment⟩ := (answers f rfl (fun _ => rfl) true).answer (by decide)
  refine ⟨model, r, solved, ?_⟩
  have best : IsGreatest f.models [true, false] := by
    refine ⟨⟨fun v => v == 1, by decide, rfl⟩, ?_⟩
    rintro _ ⟨ν, holds, rfl⟩
    have denied : ν 1 = false ∨ ν 2 = false := by
      simp [f, Formula.holds, Clause.holds, Literal.holds, Literal.under, Literal.var,
        Literal.isPositive] at holds
      exact holds.1
    change [ν 1, ν 2] ≤ [true, false]
    revert denied
    cases ν 1 <;> cases ν 2 <;> decide
  rw [assignment, greatest.unique best]
  rfl

/-- Without clauses every valuation is a model, but the table for so many variables cannot be
counted. -/
theorem solve_greatest_uncountable :
    let f : Formula := ⟨0x7FFFFFFFFFFFFFFF, [], by decide, by decide⟩
    (∀ ν, f.holds ν = true) ∧
      ∀ verify, f.solve ⟨.order, false, verify⟩ = .error (.start .uncountable) := by
  intro f
  exact ⟨fun _ => rfl, fun verify =>
    solve_of_uncountable rfl (Nat.le_refl _) ⟨.order, false, verify⟩⟩

end Clausal.Formula

import Clausal.Proofs.Branching.Occurrences

/-!
The table of polarity scores. It is built from the literals in ascending order of variables, so the
row of a literal is the first one or not there yet, and in the end each variable that occurs has one
row, with its score.
-/
namespace Clausal

namespace Formula

variable {l : Literal} {ls : List Literal} {table : List (Nat × Int)} {f : Formula} {v : Nat}

/-- A row for each variable of the literals, in ascending order, with its score among them. -/
structure Scores (ls : List Literal) (table : List (Nat × Int)) : Prop where
  ascending : (table.map Prod.fst).Pairwise (· < ·)
  occurs : ∀ v ∈ table.map Prod.fst, ∃ k ∈ ls, Literal.var k = v
  lookup : ∀ k ∈ ls, table.lookup (Literal.var k) = some (Literal.balance ls (Literal.var k))

theorem lookup_eq_none_of_not_mem (absent : v ∉ table.map Prod.fst) : table.lookup v = none := by
  apply List.lookup_eq_none_iff.2
  intro row hrow
  have other : v ≠ row.1 := fun same => absent (same ▸ List.mem_map_of_mem hrow)
  simpa using other

/-- The literal of a variable below all that have a row. -/
theorem Scores.push (scores : Scores ls table) (nonzero : l ≠ 0)
    (lower : ∀ v ∈ table.map Prod.fst, Literal.var l < v) :
    Scores (l :: ls) ((Literal.var l, Literal.polarity l) :: table) := by
  have fresh : Literal.var l ∉ table.map Prod.fst := fun held => Nat.lt_irrefl _ (lower _ held)
  have absent : ∀ m ∈ ls, Literal.var m ≠ Literal.var l := by
    intro m hm same
    have held := scores.lookup m hm
    rw [same, lookup_eq_none_of_not_mem fresh] at held
    cases held
  refine ⟨List.pairwise_cons.2 ⟨lower, scores.ascending⟩, ?_, ?_⟩
  · intro v hv
    rcases List.mem_cons.1 hv with rfl | hv
    · exact ⟨l, List.mem_cons_self, rfl⟩
    · obtain ⟨k, hk, same⟩ := scores.occurs v hv
      exact ⟨k, List.mem_cons_of_mem l hk, same⟩
  · intro m hm
    rcases List.mem_cons.1 hm with rfl | hm
    · simp [Literal.balance_cons_self nonzero, Literal.balance_eq_zero absent]
    · have other := absent m hm
      have behind : (Literal.var m == Literal.var l) = false := beq_eq_false_iff_ne.2 other
      rw [List.lookup_cons, behind, scores.lookup m hm, Literal.balance_cons_of_ne other.symm]

/-- Another literal of the variable in the first row. -/
theorem Scores.merge {old : Int} (scores : Scores ls ((Literal.var l, old) :: table))
    (nonzero : l ≠ 0) :
    Scores (l :: ls) ((Literal.var l, Literal.polarity l + old) :: table) := by
  obtain ⟨k, hk, first⟩ := scores.occurs (Literal.var l) List.mem_cons_self
  have score : old = Literal.balance ls (Literal.var l) := by
    simpa [first] using scores.lookup k hk
  refine ⟨scores.ascending, ?_, ?_⟩
  · intro v hv
    obtain ⟨m, hm, same⟩ := scores.occurs v hv
    exact ⟨m, List.mem_cons_of_mem l hm, same⟩
  · intro m hm
    by_cases same : Literal.var m = Literal.var l
    · simp [same, Literal.balance_cons_self nonzero, score]
    · have later : m ∈ ls := (List.mem_cons.1 hm).resolve_left fun equal => same (equal ▸ rfl)
      have behind : (Literal.var m == Literal.var l) = false := beq_eq_false_iff_ne.2 same
      have held := scores.lookup m later
      rw [List.lookup_cons, behind] at held ⊢
      rw [Literal.balance_cons_of_ne (Ne.symm same)]
      exact held

theorem Scores.addPolarity (scores : Scores ls table) (nonzero : l ≠ 0)
    (least : ∀ k ∈ ls, Literal.var l ≤ Literal.var k) :
    Scores (l :: ls) (Formula.addPolarity l table) := by
  cases table with
  | nil => exact scores.push nonzero nofun
  | cons row table =>
      obtain ⟨w, old⟩ := row
      rw [Formula.addPolarity]
      split
      · rename_i same
        subst same
        exact scores.merge nonzero
      · rename_i other
        refine scores.push nonzero fun v hv => ?_
        obtain ⟨k, hk, head⟩ := scores.occurs w List.mem_cons_self
        have lower : Literal.var l < w := by
          have := least k hk
          omega
        rcases List.mem_cons.1 hv with rfl | hv
        · exact lower
        · exact Nat.lt_trans lower (List.rel_of_pairwise_cons scores.ascending hv)

theorem scores_foldr (nonzero : ∀ l ∈ ls, l ≠ 0)
    (sorted : ls.Pairwise fun k l => Literal.var k ≤ Literal.var l) :
    Scores ls (ls.foldr Formula.addPolarity []) := by
  induction ls with
  | nil => exact ⟨.nil, nofun, nofun⟩
  | cons l ls ih =>
      obtain ⟨first, later⟩ := List.forall_mem_cons.1 nonzero
      obtain ⟨least, rest⟩ := List.pairwise_cons.1 sorted
      exact (ih later rest).addPolarity first least

theorem scores_polarityScores (f : Formula) : Scores f.literals f.polarityScores := by
  let sorted := f.literals.mergeSort fun k l => Literal.var k ≤ Literal.var l
  have perm : sorted.Perm f.literals := List.mergeSort_perm _ _
  have ascending : sorted.Pairwise fun k l => Literal.var k ≤ Literal.var l := by
    have pairwise : sorted.Pairwise fun k l => decide (Literal.var k ≤ Literal.var l) = true := by
      apply List.pairwise_mergeSort
      · intro k l m
        simp only [decide_eq_true_eq]
        exact Nat.le_trans
      · intro k l
        simp only [Bool.or_eq_true, decide_eq_true_eq]
        exact Nat.le_total _ _
    simpa only [decide_eq_true_eq] using pairwise
  have nonzero : ∀ l ∈ sorted, l ≠ 0 := by
    intro l hl
    obtain ⟨c, hc, hl⟩ := List.mem_flatten.1 (perm.mem_iff.1 hl)
    exact ne_zero_of_mem hc hl
  obtain ⟨keys, occurs, lookup⟩ := scores_foldr nonzero ascending
  refine ⟨keys, fun v hv => ?_, fun k hk => ?_⟩
  · obtain ⟨k, hk, same⟩ := occurs v hv
    exact ⟨k, perm.mem_iff.1 hk, same⟩
  · have balance : Literal.balance f.literals = Literal.balance sorted := by
      funext v
      simp only [Literal.balance, perm.count_eq]
    rw [balance]
    exact lookup k (perm.mem_iff.2 hk)

/-- Some clause asserts or denies the variable. -/
def Mentions (f : Formula) (v : Nat) : Prop :=
  ∃ c ∈ f.clauses, (v : Int) ∈ c ∨ -(v : Int) ∈ c

theorem mentions_iff : f.Mentions v ↔ ∃ k ∈ f.literals, Literal.var k = v := by
  simp only [Mentions, literals, List.mem_flatten, Literal.var_eq_iff]
  constructor
  · rintro ⟨c, hc, hv | hv⟩
    · exact ⟨v, ⟨c, hc, hv⟩, .inl rfl⟩
    · exact ⟨-v, ⟨c, hc, hv⟩, .inr rfl⟩
  · rintro ⟨k, ⟨c, hc, hk⟩, rfl | rfl⟩
    · exact ⟨c, hc, .inl hk⟩
    · exact ⟨c, hc, .inr hk⟩

theorem lookup_polarityScores_of_not_mentions (absent : ¬f.Mentions v) :
    f.polarityScores.lookup v = none :=
  lookup_eq_none_of_not_mem fun held =>
    absent (mentions_iff.2 (f.scores_polarityScores.occurs v held))

theorem lookup_polarityScores_of_mentions (mentioned : f.Mentions v) :
    f.polarityScores.lookup v = some (Literal.balance f.literals v) := by
  obtain ⟨k, hk, rfl⟩ := mentions_iff.1 mentioned
  exact f.scores_polarityScores.lookup k hk

/-- The table has a row for the variables that occur: how many clauses assert the variable, less how
many deny it. -/
theorem lookup_polarityScores_iff {score : Int} : f.polarityScores.lookup v = some score ↔
    f.Mentions v ∧
      score = (f.clauses.countP ((v : Int) ∈ ·) : Int) - f.clauses.countP (-(v : Int) ∈ ·) := by
  rw [← f.balance_literals]
  by_cases mentioned : f.Mentions v
  · rw [lookup_polarityScores_of_mentions mentioned, and_iff_right mentioned, Option.some.injEq,
      eq_comm]
  · simp [lookup_polarityScores_of_not_mentions mentioned, mentioned]

/-- A variable without a row has no literals, so its score is balanced as well. -/
theorem polarityScore_eq_balance (f : Formula) (v : Nat) :
    f.polarityScore v = Literal.balance f.literals v := by
  rw [polarityScore]
  by_cases mentioned : f.Mentions v
  · rw [lookup_polarityScores_of_mentions mentioned, Option.getD_some]
  · have absent : ∀ k ∈ f.literals, Literal.var k ≠ v := by
      intro k hk same
      exact mentioned (mentions_iff.2 ⟨k, hk, same⟩)
    rw [lookup_polarityScores_of_not_mentions mentioned, Option.getD_none,
      Literal.balance_eq_zero absent]

end Formula

end Clausal

import Clausal.Proofs.ClauseStatus
import Clausal.Proofs.Tally
import Clausal.Propagation

/-!
Elimination of pure literals. A literal is pure when it is open in a clause that is not satisfied
and its complement is not. All of them can be made true at once, and a model stays a model when
they are: a clause that loses its true literal had a pure one, which it keeps.
-/
namespace Clausal

namespace Trail

/-- The open literals of the unsatisfied clauses, as often as they occur. -/
def openOccurrences (t : Trail) (clauses : List Clause) : List Literal :=
  ((clauses.filter fun c => !c.satisfiedBy t.value).map t.openLiterals).flatten

def pureLiterals (t : Trail) (clauses : List Clause) : List Literal :=
  (t.tally (t.openOccurrences clauses)).pureLiterals

variable {n : Nat} {t u : Trail} {clauses : List Clause} {l : Literal}

theorem mem_openOccurrences : l ∈ t.openOccurrences clauses ↔
    ∃ c ∈ clauses, (∀ k ∈ c, ¬t.Asserts k) ∧ l ∈ c ∧ t.value (Literal.var l) = none := by
  simp only [openOccurrences, List.mem_flatten, List.mem_map, List.mem_filter]
  constructor
  · rintro ⟨_, ⟨c, ⟨hc, unsatisfied⟩, rfl⟩, hl⟩
    rw [Bool.not_eq_true', ← Bool.not_eq_true, satisfiedBy_value_iff] at unsatisfied
    exact ⟨c, hc, fun k hk asserted => unsatisfied ⟨k, hk, asserted⟩, mem_openLiterals.1 hl⟩
  · rintro ⟨c, hc, unsatisfied, hl⟩
    refine ⟨_, ⟨c, ⟨hc, ?_⟩, rfl⟩, mem_openLiterals.2 hl⟩
    rw [Bool.not_eq_true', ← Bool.not_eq_true, satisfiedBy_value_iff]
    rintro ⟨k, hk, asserted⟩
    exact unsatisfied k hk asserted

theorem mem_pureLiterals {f : Formula} (co : Coherent f.numVariables t) :
    l ∈ t.pureLiterals f.clauses ↔
      l ∈ t.openOccurrences f.clauses ∧ -l ∉ t.openOccurrences f.clauses := by
  rw [pureLiterals, tally, Tally.mem_pureLiterals, co.cells]
  constructor
  · exact And.right
  · intro pure
    obtain ⟨c, hc, _, hl, _⟩ := mem_openOccurrences.1 pure.1
    exact ⟨⟨Formula.ne_zero_of_mem hc hl, Nat.lt_succ_of_le (Formula.var_le_of_mem hc hl)⟩, pure⟩

theorem value_of_mem_pureLiterals {f : Formula} (co : Coherent f.numVariables t)
    (h : l ∈ t.pureLiterals f.clauses) :
    1 ≤ Literal.var l ∧ Literal.var l ≤ f.numVariables ∧ t.value (Literal.var l) = none := by
  obtain ⟨c, hc, _, hl, fresh⟩ := mem_openOccurrences.1 ((mem_pureLiterals co).1 h).1
  exact ⟨Literal.var_pos (Formula.ne_zero_of_mem hc hl), Formula.var_le_of_mem hc hl, fresh⟩

theorem exists_forceAll {ls : List Literal} (co : Coherent n t)
    (distinct : ls.Pairwise fun k l => Literal.var k ≠ Literal.var l)
    (fresh : ∀ l ∈ ls, 1 ≤ Literal.var l ∧ Literal.var l ≤ n ∧ t.value (Literal.var l) = none) :
    ∃ u, t.forceAll ls = (.ok (), u) := by
  induction ls generalizing t with
  | nil => exact ⟨t, rfl⟩
  | cons l rest ih =>
      obtain ⟨apart, distinct⟩ := List.pairwise_cons.1 distinct
      obtain ⟨low, high, open_⟩ := fresh l List.mem_cons_self
      obtain ⟨s, forced⟩ := co.exists_assign low high open_ (Literal.isPositive l) .forced
      have still (k : Literal) (hk : k ∈ rest) : s.value (Literal.var k) = none := by
        rw [value_of_assign forced, Int.toNat_natCast, if_neg (apart k hk).symm]
        exact (fresh k (List.mem_cons_of_mem _ hk)).2.2
      have force : t.force l = .ok s := forced
      rw [forceAll, force]
      refine ih (co.assign forced) distinct fun k hk => ?_
      obtain ⟨low, high, _⟩ := fresh k (List.mem_cons_of_mem _ hk)
      exact ⟨low, high, still k hk⟩

theorem value_of_forceAll {ls : List Literal} {v : Nat} (h : t.forceAll ls = (.ok (), u))
    (apart : ∀ l ∈ ls, Literal.var l ≠ v) : u.value v = t.value v := by
  induction ls generalizing t with
  | nil =>
      cases h
      rfl
  | cons l rest ih =>
      rw [forceAll] at h
      split at h
      · cases h
      · rename_i s forced
        rw [ih h fun k hk => apart k (List.mem_cons_of_mem _ hk), value_of_assign forced,
          Int.toNat_natCast, if_neg (apart l List.mem_cons_self).symm]

theorem asserts_of_forceAll {ls : List Literal} (h : t.forceAll ls = (.ok (), u)) (hl : l ∈ ls) :
    u.Asserts l := by
  induction ls generalizing t with
  | nil => cases hl
  | cons k rest ih =>
      rw [forceAll] at h
      split at h
      · cases h
      · rename_i s forced
        rcases List.mem_cons.1 hl with rfl | hl
        · refine (grows_of_forceAll h).asserts ?_
          rw [Asserts, value_of_assign forced, Int.toNat_natCast, if_pos rfl]
        · exact ih h hl

/-- An open literal of an unsatisfied clause is never made false: it is pure and becomes true, or
its variable stays open, since its complement is not pure. -/
theorem asserts_or_open_of_pure {f : Formula} (co : Coherent f.numVariables t)
    (forced : t.forceAll (t.pureLiterals f.clauses) = (.ok (), u))
    (occurs : l ∈ t.openOccurrences f.clauses) :
    u.Asserts l ∨ u.value (Literal.var l) = none := by
  by_cases forcedVar : ∃ k ∈ t.pureLiterals f.clauses, Literal.var k = Literal.var l
  · obtain ⟨k, hk, var⟩ := forcedVar
    rcases Literal.eq_or_eq_neg var with same | opposite
    · exact .inl (asserts_of_forceAll forced (same ▸ hk))
    · have pure := (mem_pureLiterals co).1 hk
      rw [opposite, Int.neg_neg] at pure
      exact absurd occurs pure.2
  · obtain ⟨_, _, _, _, fresh⟩ := mem_openOccurrences.1 occurs
    rw [value_of_forceAll forced fun k hk var => forcedVar ⟨k, hk, var⟩]
    exact .inr fresh

/-- A model that is changed so that all pure literals hold is still a model. -/
theorem holds_override_of_pure {f : Formula} {ν : Nat → Bool} (co : Coherent f.numVariables t)
    (forced : t.forceAll (t.pureLiterals f.clauses) = (.ok (), u)) (agrees : t.Agrees ν)
    (model : f.holds ν = true) : f.holds (u.override ν) = true := by
  have grown := grows_of_forceAll forced
  rw [Formula.holds_iff]
  intro c hc
  by_cases satisfied : ∃ k ∈ c, t.Asserts k
  · obtain ⟨k, hk, asserted⟩ := satisfied
    exact ⟨k, hk, holds_of_asserts (agrees_override u ν) (grown.asserts asserted)⟩
  · obtain ⟨l, hl, true_⟩ := Formula.holds_iff.1 model c hc
    have nonzero := Formula.ne_zero_of_mem hc hl
    have unsatisfied : ∀ k ∈ c, ¬t.Asserts k := fun k hk asserted => satisfied ⟨k, hk, asserted⟩
    have fresh : t.value (Literal.var l) = none := by
      by_contra assigned
      rcases asserts_or_neg nonzero assigned with asserted | denied
      · exact unsatisfied l hl asserted
      · exact Literal.not_holds_neg nonzero true_ (holds_of_asserts agrees denied)
    have occurs := mem_openOccurrences.2 ⟨c, hc, unsatisfied, hl, fresh⟩
    refine ⟨l, hl, ?_⟩
    rcases asserts_or_open_of_pure co forced occurs with asserted | kept
    · exact holds_of_asserts (agrees_override u ν) asserted
    · rw [Literal.holds_iff, override, kept]
      exact Literal.holds_iff.1 true_

end Trail

namespace Progress

open Trail

/-- Elimination makes exactly the pure literals of the trail true. -/
theorem eliminatePure_spec {f : Formula} {p : Progress} (co : Coherent f.numVariables p.trail) :
    ∃ t, p.trail.forceAll (p.trail.pureLiterals f.clauses) = (.ok (), t) ∧
      p.eliminatePure f = (.ok (p.trail.pureLiterals f.clauses).length,
        ⟨t, p.stats.addPureLiterals (p.trail.pureLiterals f.clauses).length⟩) := by
  obtain ⟨t, forced⟩ : ∃ t, p.trail.forceAll (p.trail.pureLiterals f.clauses) = (.ok (), t) :=
    exists_forceAll co Tally.pairwise_pureLiterals fun l hl => value_of_mem_pureLiterals co hl
  have left := co.residuals_eq fun c hc l hl => Formula.var_le_of_mem (f := f) hc hl
  refine ⟨t, forced, ?_⟩
  rw [eliminatePure, left]
  simp only [pureLiterals, openOccurrences] at forced ⊢
  rw [forced]

theorem eliminatePure_eq_ok {f : Formula} {p q : Progress} {n : Nat}
    (co : Coherent f.numVariables p.trail) (h : p.eliminatePure f = (.ok n, q)) :
    n = (p.trail.pureLiterals f.clauses).length ∧
      p.trail.forceAll (p.trail.pureLiterals f.clauses) = (.ok (), q.trail) ∧
      q.stats = p.stats.addPureLiterals n := by
  obtain ⟨t, forced, eliminated⟩ := eliminatePure_spec co
  cases h.symm.trans eliminated
  exact ⟨rfl, forced, rfl⟩

end Progress

end Clausal

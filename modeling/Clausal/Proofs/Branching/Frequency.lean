import Clausal.Proofs.Reordering.Branching
import Mathlib.Data.Prod.Lex

/-!
Branching by frequency. The literal, or the variable, that is chosen is the one that stands in most
unsatisfied clauses. Candidates are gone through from the lower variable on and with the positive
literal first, and the first of the greatest is taken, so ties are settled by that order.
-/
namespace Clausal

namespace Literal

/-- Of two literals that are as frequent as each other, the one of higher rank is preferred: that of
the lower variable, and of the two of a variable the positive one. -/
def tieRank (l : Literal) : ℤ ×ₗ Bool := toLex (-(var l : ℤ), isPositive l)

theorem tieRank_neg_lt {v : Nat} (positive : 1 ≤ v) : tieRank (-(v : Int)) < tieRank v := by
  rw [tieRank, tieRank, Prod.Lex.toLex_lt_toLex, isPositive_natCast positive,
    isPositive_neg_natCast, var_neg]
  exact .inr ⟨rfl, Bool.false_lt_true⟩

theorem tieRank_lt_of_var_lt {k l : Literal} (h : var k < var l) : tieRank l < tieRank k := by
  rw [tieRank, tieRank, Prod.Lex.toLex_lt_toLex]
  exact .inl (Int.neg_lt_neg (Int.ofNat_lt.2 h))

end Literal

namespace Tally

/-- The most frequent literal, if any literal occurs. -/
def topLiteral? (τ : Tally) : Option Literal :=
  (τ.candidates.filter fun l => 0 < τ.count l).maxOn? τ.count

/-- The most frequent variable, if any literal occurs. -/
def topVar? (τ : Tally) : Option Nat :=
  (τ.vars.filter fun v => 0 < τ.total v).maxOn? τ.total

theorem pairwise_candidates (bound : Nat) (ls : List Literal) :
    (ofLiterals bound ls).candidates.Pairwise fun k l => Literal.tieRank l < Literal.tieRank k := by
  rw [candidates, vars_ofLiterals, List.pairwise_flatMap]
  constructor
  · intro v hv
    simpa using Literal.tieRank_neg_lt (List.mem_range'_1.1 hv).1
  · refine List.Pairwise.imp (fun {v w} less => ?_) List.pairwise_lt_range'
    have var (u : Nat) {k : Literal} (hk : k ∈ [(u : Int), -(u : Int)]) : Literal.var k = u := by
      rcases List.mem_pair.1 hk with rfl | rfl <;> simp [Literal.var]
    intro k hk l hl
    exact Literal.tieRank_lt_of_var_lt (by rw [var v hk, var w hl]; exact less)

end Tally

namespace Heuristic

/-- Of the elements with the greatest score the first one is taken. -/
theorem maxOn?_spec {α : Type} {before : α → α → Prop} {score : α → Nat} {xs : List α} {x : α}
    (ordered : xs.Pairwise before) (found : xs.maxOn? score = some x) :
    ∀ y ∈ xs, y ≠ x → score y < score x ∨ score y = score x ∧ before x y := by
  induction xs generalizing x with
  | nil => cases found
  | cons a xs ih =>
      obtain ⟨first, ordered⟩ := List.pairwise_cons.1 ordered
      rw [List.maxOn?_cons, Option.some.injEq] at found
      cases rest : xs.maxOn? score with
      | none =>
          have empty : xs = [] := by
            by_contra nonempty
            have some_ := List.isSome_maxOn?_iff (f := score).2 nonempty
            rw [rest] at some_
            cases some_
          rw [rest, Option.elim_none] at found
          simp [empty, found]
      | some m =>
          have later := ih ordered rest
          rw [rest, Option.elim_some] at found
          by_cases best : score m ≤ score a
          · rw [maxOn_eq_left best] at found
            subst found
            intro y hy other
            have hy := (List.mem_cons.1 hy).resolve_left other
            have least : score y ≤ score m := by
              by_cases same : y = m
              · rw [same]
              · rcases later y hy same with less | ⟨equal, _⟩ <;> omega
            rcases Nat.lt_or_eq_of_le (Nat.le_trans least best) with less | equal
            · exact .inl less
            · exact .inr ⟨equal, first y hy⟩
          · rw [maxOn_eq_right best] at found
            subst found
            intro y hy other
            rcases List.mem_cons.1 hy with rfl | hy
            · exact .inl (Nat.not_le.1 best)
            · exact later y hy other

/-- Elements that do not score at all can be left out beforehand. -/
theorem maxOn?_filter_spec {α : Type} {before : α → α → Prop} {score : α → Nat} {xs : List α}
    {x : α} (ordered : xs.Pairwise before)
    (found : (xs.filter fun y => 0 < score y).maxOn? score = some x) :
    ∀ y ∈ xs, y ≠ x → score y < score x ∨ score y = score x ∧ before x y := by
  intro y hy other
  by_cases scores : 0 < score y
  · have kept : y ∈ xs.filter fun y => 0 < score y :=
      List.mem_filter.2 ⟨hy, decide_eq_true scores⟩
    exact maxOn?_spec (ordered.filter _) found y kept other
  · have positive := of_decide_eq_true (List.mem_filter.1 (List.maxOn?_mem found)).2
    exact .inl (by omega)

end Heuristic

namespace Formula

/-- Literals by frequency in the unsatisfied clauses, and then by preference. -/
def literalRank (f : Formula) (t : Trail) (l : Literal) : ℕ ×ₗ ℤ ×ₗ Bool :=
  toLex (f.demand t l, l.tieRank)

/-- Variables by frequency in the unsatisfied clauses, the lower one first. -/
def varRank (f : Formula) (t : Trail) (v : Nat) : ℕ ×ₗ ℤ :=
  toLex (f.demand t v + f.demand t (-v), -(v : ℤ))

end Formula

namespace Heuristic

open Trail

section Remaining

variable {f : Formula} {t : Trail} (co : Coherent f.numVariables t)
  (left : ∃ c ∈ f.unsatisfied t, ∃ l ∈ c, t.value (Literal.var l) = none)

include co left

/-- The most frequent literal is an open one of an unsatisfied clause and ranks above all others. -/
theorem topLiteral?_spec :
    ∃ l ∈ t.openOccurrences f.clauses,
      (t.tally (t.openOccurrences f.clauses)).topLiteral? = some l ∧
      chooseMostLiteral f t = .ok (Literal.var l, Literal.isPositive l) ∧
      ∀ k, t.IsOpen f.numVariables (Literal.var k) → k ≠ l →
        f.literalRank t k < f.literalRank t l := by
  obtain ⟨c, hc, m, hm, fresh⟩ := left
  have occurs := co.mem_filter_count.2 (Formula.mem_openOccurrences_iff.2 ⟨c, hc, hm, fresh⟩)
  obtain ⟨l, top⟩ := Option.isSome_iff_exists.1 (List.isSome_maxOn?_of_mem
    (f := (t.tally (t.openOccurrences f.clauses)).count) occurs)
  have occursL := co.mem_filter_count.1 (List.maxOn?_mem top)
  refine ⟨l, occursL, top, ?_, ?_⟩
  · rw [chooseMostLiteral, co.occurrences_eq]
    simp only [top]
  · intro k openK other
    have candidate : k ∈ (t.tally (t.openOccurrences f.clauses)).candidates :=
      Tally.mem_candidates.2 ⟨Int.natAbs_pos.1 openK.1,
        by rw [co.cells]; exact Nat.lt_succ_of_le openK.2.1⟩
    rw [Formula.literalRank, Formula.literalRank, Prod.Lex.toLex_lt_toLex,
      ← Formula.count_tally co openK,
      ← Formula.count_tally co (isOpen_of_mem_openOccurrences occursL)]
    exact maxOn?_filter_spec (Tally.pairwise_candidates _ _) top k candidate other

theorem topVar?_spec :
    ∃ v, (∃ l ∈ t.openOccurrences f.clauses, Literal.var l = v) ∧
      (t.tally (t.openOccurrences f.clauses)).topVar? = some v ∧
      chooseMostVariable f t = .ok (v, true) ∧
      ∀ w, t.IsOpen f.numVariables w → w ≠ v → f.varRank t w < f.varRank t v := by
  obtain ⟨c, hc, m, hm, fresh⟩ := left
  have occurs := co.mem_filter_total.2
    ⟨m, Formula.mem_openOccurrences_iff.2 ⟨c, hc, hm, fresh⟩, rfl⟩
  obtain ⟨v, top⟩ := Option.isSome_iff_exists.1 (List.isSome_maxOn?_of_mem
    (f := (t.tally (t.openOccurrences f.clauses)).total) occurs)
  have occursV := co.mem_filter_total.1 (List.maxOn?_mem top)
  have openV : t.IsOpen f.numVariables v := by
    obtain ⟨l, occursL, rfl⟩ := occursV
    exact isOpen_of_mem_openOccurrences occursL
  refine ⟨v, occursV, top, ?_, ?_⟩
  · rw [chooseMostVariable, co.occurrences_eq]
    simp only [top]
  · intro w openW other
    have candidate : w ∈ (t.tally (t.openOccurrences f.clauses)).vars :=
      Tally.mem_vars.2 ⟨openW.1, by rw [co.cells]; exact Nat.lt_succ_of_le openW.2.1⟩
    have ascending : (t.tally (t.openOccurrences f.clauses)).vars.Pairwise
        fun (u w : Nat) => -(w : ℤ) < -(u : ℤ) := by
      rw [tally, Tally.vars_ofLiterals]
      exact List.Pairwise.imp (fun less => by omega) List.pairwise_lt_range'
    rw [Formula.varRank, Formula.varRank, Prod.Lex.toLex_lt_toLex,
      ← Formula.total_tally co openW, ← Formula.total_tally co openV]
    exact maxOn?_filter_spec ascending top w candidate other

end Remaining

variable {f : Formula} {t : Trail}

theorem choosePolarity_spec {v : Nat} (chosen : chooseMostVariable f t = .ok (v, true)) :
    ∃ b, choosePolarity f t = .ok (v, b) ∧
      (b = true ↔ f.clauses.countP (-(v : Int) ∈ ·) ≤ f.clauses.countP ((v : Int) ∈ ·)) := by
  refine ⟨decide (0 ≤ f.polarityScore v), ?_, ?_⟩
  · rw [choosePolarity, chosen]
  · rw [decide_eq_true_iff, f.polarityScore_eq_balance, f.balance_literals]
    omega

/-- As long as an unsatisfied clause has an open literal, the choice is the open literal, or the
open variable, that ranks highest by frequency in the unsatisfied clauses. The value comes from the
literal, or is true, or is the one that more clauses of the whole formula ask for, true if none is.
Clauses and literals can stand in any order. -/
theorem chooses_most_frequent (grown : Grows (.empty f.numVariables) t)
    (left : ∃ c ∈ f.unsatisfied t, ∃ l ∈ c, t.value (Literal.var l) = none) :
    (∃ l, mostLiteral.choose f t = .ok (Literal.var l, Literal.isPositive l) ∧
      t.IsOpen f.numVariables (Literal.var l) ∧
      ∀ k, t.IsOpen f.numVariables (Literal.var k) → k ≠ l →
        f.literalRank t k < f.literalRank t l) ∧
    (∃ v b, mostVariable.choose f t = .ok (v, true) ∧ polarity.choose f t = .ok (v, b) ∧
      t.IsOpen f.numVariables v ∧
      (∀ w, t.IsOpen f.numVariables w → w ≠ v → f.varRank t w < f.varRank t v) ∧
      (b = true ↔ f.clauses.countP (-(v : Int) ∈ ·) ≤ f.clauses.countP ((v : Int) ∈ ·))) ∧
    ∀ g u, f.numVariables = g.numVariables → Reordered f.clauses g.clauses →
      Grows (.empty g.numVariables) u → t.value = u.value →
      ∀ h ∈ [mostLiteral, mostVariable, polarity], h.choose f t = h.choose g u := by
  have co := (coherent_empty f.numVariables).grows grown
  refine ⟨?_, ?_, ?_⟩
  · obtain ⟨l, occurs, _, chosen, greatest⟩ := topLiteral?_spec co left
    exact ⟨l, chosen, isOpen_of_mem_openOccurrences occurs, greatest⟩
  · obtain ⟨v, ⟨l, occurs, var⟩, _, chosen, greatest⟩ := topVar?_spec co left
    have openV : t.IsOpen f.numVariables v := var ▸ isOpen_of_mem_openOccurrences occurs
    obtain ⟨b, chosen', sign⟩ := choosePolarity_spec chosen
    exact ⟨v, b, chosen, chosen', openV, greatest, sign⟩
  · intro g u count reordered grownU values h _
    have coU := (coherent_empty g.numVariables).grows grownU
    exact choosesAlike_of_reordered h count reordered t u co coU values

theorem chooses_most_frequent_tie :
    let f : Formula :=
      ⟨5, [[1, 2], [-2, 3], [-2, -3], [2, 4], [-1, 5], [5, -2]], by decide, by decide⟩
    let t : Trail := ⟨5, #[none, none, none, none, none, some true], [⟨5, true, .decision⟩], 1⟩
    Grows (.empty f.numVariables) t ∧
      (∃ c ∈ f.unsatisfied t, ∃ l ∈ c, t.value (Literal.var l) = none) ∧
      mostLiteral.choose f t = .ok (2, true) ∧ f.literalRank t (-2) < f.literalRank t 2 ∧
      mostVariable.choose f t = .ok (2, true) ∧ f.varRank t 3 < f.varRank t 2 ∧
      polarity.choose f t = .ok (2, false) := by
  intro f t
  have decided : (Trail.empty f.numVariables).assign 5 true .decision = .ok t := rfl
  have grown : Grows (.empty f.numVariables) t := .assign .refl decided
  have left : ∃ c ∈ f.unsatisfied t, ∃ l ∈ c, t.value (Literal.var l) = none :=
    ⟨[1, 2], by decide, 1, by decide, rfl⟩
  obtain ⟨⟨l, literal, _, above⟩, ⟨v, b, var, chosen, _, aboveVar, sign⟩, _⟩ :=
    chooses_most_frequent grown left
  have positive : mostLiteral.choose f t = .ok (2, true) := by
    dsimp only [f, t]
    rfl
  have lowest : mostVariable.choose f t = .ok (2, true) := by
    dsimp only [f, t]
    rfl
  obtain ⟨sameVar, sameSign⟩ := Prod.mk.inj (Except.ok.inj (literal.symm.trans positive))
  obtain rfl : l = 2 := Literal.eq_of_var_eq (by decide) sameVar sameSign
  obtain ⟨rfl, _⟩ := Prod.mk.inj (Except.ok.inj (var.symm.trans lowest))
  have denied : b = false := by
    rw [← Bool.not_eq_true, sign]
    decide
  exact ⟨grown, left, positive, above (-2) ⟨by decide, by decide, rfl⟩ (by decide), lowest,
    aboveVar 3 ⟨by decide, by decide, rfl⟩ (by decide), denied ▸ chosen⟩

end Heuristic

end Clausal

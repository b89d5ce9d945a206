import Clausal.Proofs.ClauseStatus
import Clausal.Propagation

/-!
Unit propagation as a closure. What passes over the clauses can make true is the least set of
literals that holds the true literals of the trail and, with the complements of all literals of a
clause but one, that one. Passes never leave the closure, a fixpoint exhausts it, and a conflict is
a clause whose complements are all in it; the order in which clauses are visited plays no part.
-/
namespace Clausal

namespace Trail

/-- The closure of the true literals of a trail under unit clauses. -/
inductive Derives (clauses : List Clause) (t : Trail) : Literal → Prop where
  | asserted {l : Literal} : t.Asserts l → Derives clauses t l
  | unit {c : Clause} {l : Literal} : c ∈ clauses → l ∈ c →
      (∀ k ∈ c, k ≠ l → Derives clauses t (-k)) → Derives clauses t l

/-- Neither falsified nor unit. -/
def Settles (t : Trail) (c : Clause) : Prop :=
  t.clauseStatus c = .ok .satisfied ∨ t.clauseStatus c = .ok .undetermined

theorem holds_of_derives {f : Formula} {t : Trail} {ν : Nat → Bool} {l : Literal}
    (agrees : t.Agrees ν) (model : f.holds ν = true) (h : Derives f.clauses t l) :
    Literal.holds ν l = true := by
  induction h with
  | asserted asserted => exact holds_of_asserts agrees asserted
  | @unit c l hc hl _ ih =>
      obtain ⟨k, hk, true_⟩ := Formula.holds_iff.1 model c hc
      by_cases same : k = l
      · exact same ▸ true_
      · exact absurd (ih k hk same) (Literal.not_holds_neg (Formula.ne_zero_of_mem hc hk) true_)

/-- There is no model where all literals of a clause are refuted. -/
theorem not_holds_of_derives_neg {f : Formula} {t : Trail} {ν : Nat → Bool} {c : Clause}
    (agrees : t.Agrees ν) (hc : c ∈ f.clauses)
    (refuted : ∀ l ∈ c, Derives f.clauses t (-l)) : f.holds ν ≠ true := by
  intro model
  obtain ⟨l, hl, true_⟩ := Formula.holds_iff.1 model c hc
  have denied := holds_of_derives agrees model (refuted l hl)
  exact Literal.not_holds_neg (Formula.ne_zero_of_mem hc hl) true_ denied

theorem Derives.of_derived {clauses : List Clause} {t u : Trail} {l : Literal}
    (derived : ∀ k, u.Asserts k → Derives clauses t k) (h : Derives clauses u l) :
    Derives clauses t l := by
  induction h with
  | asserted asserted => exact derived _ asserted
  | unit hc hl _ ih => exact .unit hc hl ih

/-- A clause is settled by a true literal, or by two literals that are still open. -/
theorem Coherent.settles_iff {f : Formula} {t : Trail} {c : Clause}
    (co : Coherent f.numVariables t) (hc : c ∈ f.clauses) :
    t.Settles c ↔ (∃ l ∈ c, t.Asserts l) ∨ ∃ k ∈ c, ∃ l ∈ c, k ≠ l ∧
      t.value (Literal.var k) = none ∧ t.value (Literal.var l) = none := by
  obtain ⟨status, scanned, judged⟩ := co.exists_clauseStatus hc
  have refuted {l : Literal} (hl : l ∈ c) (denied : t.Asserts (-l)) : ¬t.Asserts l :=
    fun asserted => not_asserts_neg (Formula.ne_zero_of_mem hc hl) asserted denied
  cases judged with
  | satisfied hl asserted => exact iff_of_true (.inl scanned) (.inl ⟨_, hl, asserted⟩)
  | undetermined _ hk hl other openK openL =>
      exact iff_of_true (.inr scanned) (.inr ⟨_, hk, _, hl, other, openK, openL⟩)
  | falsified denied =>
      refine iff_of_false (by simp [Settles, scanned]) ?_
      rintro (⟨l, hl, asserted⟩ | ⟨k, hk, _, _, _, openK, _⟩)
      · exact refuted hl (denied l hl) asserted
      · exact value_ne_none_of_asserts_neg (denied k hk) openK
  | @unit m _ fresh denied =>
      refine iff_of_false (by simp [Settles, scanned]) ?_
      rintro (⟨l, hl, asserted⟩ | ⟨k, hk, l, hl, other, openK, openL⟩)
      · by_cases same : l = m
        · rw [Asserts, same, fresh] at asserted
          cases asserted
        · exact refuted hl (denied l hl same) asserted
      · by_cases same : k = m
        · exact value_ne_none_of_asserts_neg (denied l hl (same ▸ other.symm)) openL
        · exact value_ne_none_of_asserts_neg (denied k hk same) openK

/-- Where every clause is settled there is nothing left to derive. -/
theorem asserts_of_derives {f : Formula} {t : Trail} {l : Literal}
    (co : Coherent f.numVariables t) (settled : ∀ c ∈ f.clauses, t.Settles c)
    (h : Derives f.clauses t l) : t.Asserts l := by
  induction h with
  | asserted asserted => exact asserted
  | @unit c l hc hl _ ih =>
      rcases (co.settles_iff hc).1 (settled c hc) with
        ⟨k, hk, asserted⟩ | ⟨j, hj, k, hk, distinct, openJ, openK⟩
      · by_cases same : k = l
        · exact same ▸ asserted
        · exact absurd (ih k hk same) (not_asserts_neg (Formula.ne_zero_of_mem hc hk) asserted)
      · by_cases same : j = l
        · exact absurd openK (value_ne_none_of_asserts_neg (ih k hk (same ▸ distinct.symm)))
        · exact absurd openJ (value_ne_none_of_asserts_neg (ih j hj same))

theorem Coherent.not_settles {f : Formula} {t : Trail} {c : Clause}
    (co : Coherent f.numVariables t) (hc : c ∈ f.clauses) (denied : ∀ l ∈ c, t.Asserts (-l)) :
    ¬t.Settles c := by
  rw [co.settles_iff hc]
  rintro (⟨l, hl, asserted⟩ | ⟨k, hk, _, _, _, openK, _⟩)
  · exact not_asserts_neg (Formula.ne_zero_of_mem hc hl) asserted (denied l hl)
  · exact value_ne_none_of_asserts_neg (denied k hk) openK

/-- Where every variable has a value, a settled clause can only be satisfied. -/
theorem Coherent.satisfiedBy_of_complete {f : Formula} {t : Trail}
    (co : Coherent f.numVariables t) (complete : t.isComplete = true)
    (settled : ∀ c ∈ f.clauses, t.Settles c) : f.satisfiedBy t.value = true := by
  rw [co.isComplete_iff] at complete
  refine Formula.satisfiedBy_iff.2 fun c hc => satisfiedBy_value_iff.2 ?_
  rcases (co.settles_iff hc).1 (settled c hc) with satisfied | ⟨k, hk, _, _, _, openK, _⟩
  · exact satisfied
  · exact absurd openK (complete _ (Literal.var_pos (Formula.ne_zero_of_mem hc hk))
      (Formula.var_le_of_mem hc hk))

theorem Coherent.exists_force {f : Formula} {t : Trail} {c : Clause} {l : Literal}
    (co : Coherent f.numVariables t) (hc : c ∈ f.clauses) (hl : l ∈ c)
    (fresh : t.value (Literal.var l) = none) : ∃ u, t.force l = .ok u :=
  co.exists_assign (Literal.var_pos (Formula.ne_zero_of_mem hc hl))
    (Formula.var_le_of_mem hc hl) fresh _ _

end Trail

namespace Progress

open Trail

/-- Progress by unit clauses alone: the trail stays in the closure and every new entry counts. -/
structure Deduced (f : Formula) (p q : Progress) : Prop where
  grown : Grows p.trail q.trail
  derived : ∀ l, q.trail.Asserts l → Derives f.clauses p.trail l
  stats : q.stats = { p.stats with
    propagations := p.stats.propagations + (q.trail.size - p.trail.size) }

namespace Deduced

variable {f : Formula} {p q r : Progress}

theorem refl (f : Formula) (p : Progress) : Deduced f p p where
  grown := .refl
  derived _ asserted := .asserted asserted
  stats := by simp

theorem trans (pq : Deduced f p q) (qr : Deduced f q r) : Deduced f p r where
  grown := pq.grown.trans qr.grown
  derived l asserted := (qr.derived l asserted).of_derived pq.derived
  stats := by
    have := pq.grown.size_le
    have := qr.grown.size_le
    rw [qr.stats, pq.stats]
    simp only [Stats.mk.injEq, and_true, true_and]
    omega

theorem force {c : Clause} {l : Literal} {t : Trail} (hc : c ∈ f.clauses)
    (hl : l ∈ c) (rest : ∀ k ∈ c, k ≠ l → p.trail.Asserts (-k)) (h : p.trail.force l = .ok t) :
    Deduced f p ⟨t, p.stats.addPropagation⟩ where
  grown := grows_of_force h
  derived k asserted := by
    rcases asserts_of_force (Formula.ne_zero_of_mem hc hl) h asserted with rfl | before
    · exact .unit hc hl fun m hm other => .asserted (rest m hm other)
    · exact .asserted before
  stats := by
    have one : t.size - p.trail.size = 1 := by rw [size_of_assign h]; omega
    simp only [Stats.addPropagation, one]

theorem coherent (h : Deduced f p q) (co : Coherent f.numVariables p.trail) :
    Coherent f.numVariables q.trail :=
  co.grows h.grown

end Deduced

/-- What a pass and their repetition have in common: no fault, a falsified clause on a conflict. -/
theorem unitPass_spec {f : Formula} {p : Progress} {clauses : List Clause}
    (co : Coherent f.numVariables p.trail) (sub : ∀ c ∈ clauses, c ∈ f.clauses) :
    ∃ outcome q, p.unitPass clauses = (.ok outcome, q) ∧ Deduced f p q ∧
      (outcome = .conflict → ∃ c ∈ f.clauses, ∀ l ∈ c, q.trail.Asserts (-l)) ∧
      (outcome = .fixpoint → q.trail.size = p.trail.size → ∀ c ∈ clauses, p.trail.Settles c) := by
  induction clauses generalizing p with
  | nil => exact ⟨.fixpoint, p, rfl, .refl f p, by simp, by simp⟩
  | cons c rest ih =>
      have hc := sub c List.mem_cons_self
      have subRest : ∀ d ∈ rest, d ∈ f.clauses := fun d hd => sub d (List.mem_cons_of_mem _ hd)
      obtain ⟨status, scanned, judged⟩ := co.exists_clauseStatus hc
      rw [unitPass, scanned]
      cases judged with
      | falsified denied =>
          exact ⟨.conflict, p, rfl, .refl f p, fun _ => ⟨c, hc, denied⟩, by simp⟩
      | @unit l hl fresh denied =>
          obtain ⟨t, forced⟩ := co.exists_force hc hl fresh
          have step : Deduced f p ⟨t, p.stats.addPropagation⟩ := .force hc hl denied forced
          obtain ⟨outcome, q, passed, more, conflict, _⟩ := ih (step.coherent co) subRest
          refine ⟨outcome, q, ?_, step.trans more, conflict, ?_⟩
          · simp only [forced, passed]
          · intro _ same
            have grown : t.size ≤ q.trail.size := more.grown.size_le
            have := size_of_assign forced
            omega
      | satisfied | undetermined =>
          obtain ⟨outcome, q, passed, more, conflict, settled⟩ := ih co subRest
          refine ⟨outcome, q, passed, more, conflict, ?_⟩
          intro fixpoint same d hd
          rcases List.mem_cons.1 hd with rfl | hd
          · first | exact .inl scanned | exact .inr scanned
          · exact settled fixpoint same d hd

theorem unitPropagate_spec {f : Formula} {p : Progress} (co : Coherent f.numVariables p.trail) :
    ∃ outcome q, p.unitPropagate f = (.ok outcome, q) ∧ Deduced f p q ∧
      (outcome = .conflict → ∃ c ∈ f.clauses, ∀ l ∈ c, q.trail.Asserts (-l)) ∧
      (outcome = .fixpoint → ∀ c ∈ f.clauses, q.trail.Settles c) := by
  fun_induction unitPropagate f p with
  | case1 p q passed same =>
      obtain ⟨_, _, passed', deduced, _, settled⟩ := unitPass_spec co fun c hc => hc
      cases passed.symm.trans passed'
      refine ⟨.fixpoint, q, rfl, deduced, by simp, fun _ => ?_⟩
      rw [deduced.grown.eq_of_size same]
      exact settled rfl same
  | case2 p q passed longer ih =>
      obtain ⟨_, _, passed', deduced, _, _⟩ := unitPass_spec co fun c hc => hc
      cases passed.symm.trans passed'
      obtain ⟨outcome, r, repeated, more, conflict, settled⟩ := ih (deduced.coherent co)
      exact ⟨outcome, r, repeated, deduced.trans more, conflict, settled⟩
  | case3 p q passed =>
      obtain ⟨_, _, passed', deduced, conflict, _⟩ := unitPass_spec co fun c hc => hc
      cases passed.symm.trans passed'
      exact ⟨.conflict, q, rfl, deduced, conflict, by simp⟩
  | case4 p e q passed =>
      obtain ⟨_, _, passed', _⟩ := unitPass_spec co fun c hc => hc
      cases passed.symm.trans passed'

theorem deduced_of_unitPropagate {f : Formula} {p q : Progress}
    (co : Coherent f.numVariables p.trail) (h : p.unitPropagate f = (.ok .fixpoint, q)) :
    Deduced f p q ∧ ∀ c ∈ f.clauses, q.trail.Settles c := by
  obtain ⟨_, _, h', deduced, _, settled⟩ := unitPropagate_spec co
  cases h.symm.trans h'
  exact ⟨deduced, settled rfl⟩

/-- The closure decides how unit propagation ends, and up to a fixpoint it is what comes out. -/
theorem unitPropagate_derives {f : Formula} {p : Progress}
    (co : Coherent f.numVariables p.trail) :
    ∃ outcome q, p.unitPropagate f = (.ok outcome, q) ∧ Deduced f p q ∧
      (outcome = .conflict ↔ ∃ c ∈ f.clauses, ∀ l ∈ c, Derives f.clauses p.trail (-l)) ∧
      (outcome = .fixpoint → ∀ l, q.trail.Asserts l ↔ Derives f.clauses p.trail l) := by
  obtain ⟨outcome, q, unit, deduced, conflict, settled⟩ := unitPropagate_spec co
  refine ⟨outcome, q, unit, deduced, ?_⟩
  cases outcome with
  | conflict =>
      obtain ⟨c, hc, denied⟩ := conflict rfl
      exact ⟨iff_of_true rfl ⟨c, hc, fun l hl => deduced.derived _ (denied l hl)⟩, nofun⟩
  | fixpoint =>
      have coQ := deduced.coherent co
      have settled := settled rfl
      have asserts (l : Literal) (derived : Derives f.clauses p.trail l) : q.trail.Asserts l :=
        asserts_of_derives coQ settled
          (derived.of_derived fun k asserted => .asserted (deduced.grown.asserts asserted))
      refine ⟨iff_of_false nofun ?_, fun _ l => ⟨deduced.derived l, asserts l⟩⟩
      rintro ⟨c, hc, refuted⟩
      exact coQ.not_settles hc (fun l hl => asserts _ (refuted l hl)) (settled c hc)

end Progress

end Clausal

import Clausal.Proofs.Propagation.Rounds
import Mathlib.Logic.Relation

/-!
The two rules of propagation take turns only once. Making all pure literals true leaves every settled
clause settled: a clause loses no open literal without becoming true. So after the first fixpoint of
the unit rule there is never a unit clause again, and the rest of propagation is one elimination of
pure literals after the other.
-/
namespace Clausal

namespace Trail

/-- Where a clause keeps its open literals or becomes true, it stays settled. -/
theorem settles_of_pure {f : Formula} {t u : Trail} {c : Clause} (co : Coherent f.numVariables t)
    (forced : t.forceAll (t.pureLiterals f.clauses) = (.ok (), u)) (hc : c ∈ f.clauses)
    (settled : t.Settles c) : u.Settles c := by
  have grown := grows_of_forceAll forced
  rw [co.settles_iff hc] at settled
  rw [(co.grows grown).settles_iff hc]
  by_cases satisfied : ∃ l ∈ c, t.Asserts l
  · obtain ⟨l, hl, asserted⟩ := satisfied
    exact .inl ⟨l, hl, grown.asserts asserted⟩
  · obtain ⟨k, hk, l, hl, other, openK, openL⟩ := settled.resolve_left satisfied
    have unsatisfied : ∀ m ∈ c, ¬t.Asserts m := fun m hm asserted => satisfied ⟨m, hm, asserted⟩
    have occurs (m : Literal) (hm : m ∈ c) (fresh : t.value (Literal.var m) = none) :=
      asserts_or_open_of_pure co forced (mem_openOccurrences.2 ⟨c, hc, unsatisfied, hm, fresh⟩)
    rcases occurs k hk openK with asserted | keptK
    · exact .inl ⟨k, hk, asserted⟩
    · rcases occurs l hl openL with asserted | keptL
      · exact .inl ⟨l, hl, asserted⟩
      · exact .inr ⟨k, hk, l, hl, other, keptK, keptL⟩

end Trail

namespace Progress

open Trail

variable {f : Formula} {p q r : Progress} {n : Nat}

theorem unitPass_of_settles {clauses : List Clause} (settled : ∀ c ∈ clauses, p.trail.Settles c) :
    p.unitPass clauses = (.ok .fixpoint, p) := by
  induction clauses with
  | nil => rfl
  | cons c rest ih =>
      obtain ⟨first, later⟩ := List.forall_mem_cons.1 settled
      rw [unitPass]
      rcases first with scanned | scanned <;> rw [scanned] <;> exact ih later

/-- Where every clause is settled, the unit rule does nothing. -/
theorem unitPropagate_of_settles (settled : ∀ c ∈ f.clauses, p.trail.Settles c) :
    p.unitPropagate f = (.ok .fixpoint, p) := by
  rw [unitPropagate_eq_round, passRound, unitPass_of_settles settled]
  simp

theorem settles_of_eliminatePure (co : Coherent f.numVariables p.trail)
    (eliminated : p.eliminatePure f = (.ok n, q)) (settled : ∀ c ∈ f.clauses, p.trail.Settles c) :
    ∀ c ∈ f.clauses, q.trail.Settles c := by
  obtain ⟨_, forced, _⟩ := eliminatePure_eq_ok co eliminated
  exact fun c hc => settles_of_pure co forced hc (settled c hc)

/-- Eliminations of pure literals, one after the other, until one finds none. -/
def exhaustPure (f : Formula) (p : Progress) : Except Fault Propagated × Progress :=
  match _eliminated : p.eliminatePure f with
  | (.ok 0, q) => (.ok .fixpoint, q)
  | (.ok (_ + 1), q) => exhaustPure f q
  | (.error e, q) => (.error e, q)
termination_by p.trail.free
decreasing_by
  have := size_of_eliminatePure _eliminated
  exact (grows_of_eliminatePure _eliminated).free_lt (by omega)

/-- Without unit clauses at the start, propagation is nothing but eliminations. -/
theorem propagate_of_settles (co : Coherent f.numVariables p.trail)
    (settled : ∀ c ∈ f.clauses, p.trail.Settles c) : p.propagate f true = p.exhaustPure f := by
  fun_induction exhaustPure f p with
  | case1 p q eliminated | case3 p e q eliminated =>
      rw [propagate_eq, unitPropagate_of_settles settled]
      simp only [eliminated, if_true]
  | case2 p n q eliminated ih =>
      rw [propagate_eq, unitPropagate_of_settles settled]
      simp only [eliminated, if_true]
      exact ih (co.grows (grows_of_eliminatePure eliminated))
        (settles_of_eliminatePure co eliminated settled)

theorem propagate_eq_stages (co : Coherent f.numVariables p.trail) :
    p.propagate f true =
      match p.unitPropagate f with
      | (.ok .fixpoint, q) => q.exhaustPure f
      | ended => ended := by
  obtain ⟨outcome, q, unit, deduced, _, settled⟩ := unitPropagate_spec co
  rw [propagate_eq, unit]
  cases outcome with
  | conflict => rfl
  | fixpoint =>
      -- At `q` the unit rule would do nothing, so that propagation from `q` starts with eliminations.
      have again := propagate_of_settles (deduced.coherent co) (settled rfl)
      rw [propagate_eq, unitPropagate_of_settles (settled rfl)] at again
      exact again

/-- Eliminations end on a trail without pure literals, and each new entry counts as one. -/
theorem exhaustPure_spec (co : Coherent f.numVariables p.trail) :
    ∃ q, p.exhaustPure f = (.ok .fixpoint, q) ∧ Grows p.trail q.trail ∧
      q.trail.pureLiterals f.clauses = [] ∧
      q.stats = { p.stats with
        pureLiterals := p.stats.pureLiterals + (q.trail.size - p.trail.size) } := by
  fun_induction exhaustPure f p with
  | case1 p q eliminated =>
      obtain ⟨none_, _, counted⟩ := eliminatePure_eq_ok co eliminated
      have grown := grows_of_eliminatePure eliminated
      have size := size_of_eliminatePure eliminated
      refine ⟨q, rfl, grown, ?_, ?_⟩
      · rw [grown.eq_of_size size]
        exact List.length_eq_zero_iff.1 none_.symm
      · rw [counted, size, Nat.add_sub_cancel_left]
        rfl
  | case2 p n q eliminated ih =>
      obtain ⟨_, _, counted⟩ := eliminatePure_eq_ok co eliminated
      have grown := grows_of_eliminatePure eliminated
      have size := size_of_eliminatePure eliminated
      obtain ⟨r, exhausted, more, pure, stats⟩ := ih (co.grows grown)
      have := more.size_le
      refine ⟨r, exhausted, grown.trans more, pure, ?_⟩
      rw [stats, counted]
      simp only [Stats.addPureLiterals, Stats.mk.injEq, and_true, true_and]
      omega
  | case3 p e q eliminated =>
      obtain ⟨_, _, eliminated'⟩ := eliminatePure_spec co
      cases eliminated.symm.trans eliminated'

theorem stages_of_fixpoint (co : Coherent f.numVariables p.trail)
    (h : p.propagate f true = (.ok .fixpoint, r)) :
    ∃ q, p.unitPropagate f = (.ok .fixpoint, q) ∧ Deduced f p q ∧
      (∀ c ∈ f.clauses, q.trail.Settles c) ∧ q.exhaustPure f = (.ok .fixpoint, r) ∧
      Grows q.trail r.trail ∧ r.trail.pureLiterals f.clauses = [] := by
  rw [propagate_eq_stages co] at h
  obtain ⟨outcome, q, unit, deduced, _, settled⟩ := unitPropagate_spec co
  rw [unit] at h
  cases outcome with
  | conflict => cases h
  | fixpoint =>
      obtain ⟨_, exhausted, grown, pure, _⟩ := exhaustPure_spec (f := f) (deduced.coherent co)
      cases exhausted.symm.trans h
      exact ⟨q, unit, deduced, settled rfl, h, grown, pure⟩

/-- A round of propagation that is followed by another one. -/
def NextRound (f : Formula) (pureLiterals : Bool) (p q : Progress) : Prop :=
  p.ruleRound f pureLiterals = .inl q

/-- In one of the rounds from `p` on, an elimination of pure literals gives the variable its value. -/
def Purifies (f : Formula) (p : Progress) (v : Nat) : Prop :=
  ∃ a b c n, Relation.ReflTransGen (NextRound f true) p a ∧
    a.unitPropagate f = (.ok .fixpoint, b) ∧ b.eliminatePure f = (.ok n, c) ∧
    b.trail.value v = none ∧ c.trail.value v ≠ none

theorem nextRound_iff : NextRound f true p r ↔
    ∃ n q, p.unitPropagate f = (.ok .fixpoint, q) ∧ q.eliminatePure f = (.ok (n + 1), r) := by
  constructor
  · intro next
    rw [NextRound, ruleRound] at next
    split at next
    · rename_i q unit
      rw [if_pos rfl] at next
      split at next
      · cases next
      · rename_i n s eliminated
        cases next
        exact ⟨n, q, unit, eliminated⟩
      · cases next
    · cases next
  · rintro ⟨n, q, unit, eliminated⟩
    simp only [NextRound, ruleRound, unit, eliminated, if_true]

theorem settles_of_nextRound (co : Coherent f.numVariables p.trail) (next : NextRound f true p r) :
    Coherent f.numVariables r.trail ∧ ∀ c ∈ f.clauses, r.trail.Settles c := by
  obtain ⟨n, q, unit, eliminated⟩ := nextRound_iff.1 next
  obtain ⟨deduced, settled⟩ := deduced_of_unitPropagate co unit
  have coQ := deduced.coherent co
  exact ⟨coQ.grows (grows_of_eliminatePure eliminated),
    settles_of_eliminatePure coQ eliminated settled⟩

theorem settles_of_rounds (co : Coherent f.numVariables p.trail)
    (reached : Relation.TransGen (NextRound f true) p q) :
    Coherent f.numVariables q.trail ∧ ∀ c ∈ f.clauses, q.trail.Settles c := by
  induction reached with
  | single next => exact settles_of_nextRound co next
  | tail _ next ih => exact settles_of_nextRound ih.1 next

theorem Purifies.head {v : Nat} (next : NextRound f true p q) (h : q.Purifies f v) :
    p.Purifies f v := by
  obtain ⟨a, b, c, n, reached, rest⟩ := h
  exact ⟨a, b, c, n, .head next reached, rest⟩

theorem purifies_of_exhaustPure {v : Nat} (unit : p.unitPropagate f = (.ok .fixpoint, q))
    (co : Coherent f.numVariables q.trail) (settled : ∀ c ∈ f.clauses, q.trail.Settles c)
    (exhausted : q.exhaustPure f = (.ok .fixpoint, r)) (before : q.trail.value v = none)
    (after : r.trail.value v ≠ none) : p.Purifies f v := by
  fun_induction exhaustPure f q generalizing p with
  | case1 q s eliminated =>
      cases exhausted
      exact ⟨p, q, r, 0, .refl, unit, eliminated, before, after⟩
  | case2 q n s eliminated ih =>
      by_cases later : s.trail.value v = none
      · have settledS := settles_of_eliminatePure co eliminated settled
        refine Purifies.head (nextRound_iff.2 ⟨n, q, unit, eliminated⟩) ?_
        exact ih (unitPropagate_of_settles settledS)
          (co.grows (grows_of_eliminatePure eliminated)) settledS exhausted later
      · exact ⟨p, q, s, n + 1, .refl, unit, eliminated, before, later⟩
  | case3 => cases exhausted

/-- With pure literals, propagation is one unit propagation and then, unless that ends in a conflict,
one elimination after the other until nothing is pure. No elimination makes a settled clause unit or
falsified, so later unit propagations have nothing to do: a conflict comes before any pure literal,
and the entries of unit clauses come before those of pure literals. -/
theorem propagate_stages (grown : Grows (.empty f.numVariables) p.trail) :
    (p.propagate f true =
      match p.unitPropagate f with
      | (.ok .fixpoint, q) => q.exhaustPure f
      | ended => ended) ∧
    (∀ q : Progress, Grows (.empty f.numVariables) q.trail →
      (∀ c ∈ f.clauses, q.trail.Settles c) →
      ∃ n r, q.eliminatePure f = (.ok n, r) ∧ ∀ c ∈ f.clauses, r.trail.Settles c) ∧
    (∀ q, Relation.TransGen (NextRound f true) p q → q.unitPropagate f = (.ok .fixpoint, q)) ∧
    ∃ outcome q r units pures, p.unitPropagate f = (.ok outcome, q) ∧
      p.propagate f true = (.ok outcome, r) ∧
      q.trail.chronological = p.trail.chronological ++ units ∧
      r.trail.chronological = p.trail.chronological ++ units ++ pures ∧
      r.stats = { p.stats with
        propagations := p.stats.propagations + units.length
        pureLiterals := p.stats.pureLiterals + pures.length } ∧
      (∀ e ∈ pures, p.Purifies f e.var) ∧ (outcome = .conflict → pures = []) := by
  have empty := coherent_empty f.numVariables
  have co := empty.grows grown
  have stages := propagate_eq_stages co
  refine ⟨stages, ?_, ?_, ?_⟩
  · intro q grownQ settled
    obtain ⟨t, _, eliminated⟩ := eliminatePure_spec (p := q) (empty.grows grownQ)
    exact ⟨_, _, eliminated, settles_of_eliminatePure (empty.grows grownQ) eliminated settled⟩
  · intro q reached
    exact unitPropagate_of_settles (settles_of_rounds co reached).2
  · obtain ⟨outcome, q, unit, deduced, _, settled⟩ := unitPropagate_spec co
    have coQ := deduced.coherent co
    obtain ⟨units, entries, size⟩ := deduced.grown.exists_added
    rw [unit] at stages
    cases outcome with
    | conflict =>
        refine ⟨.conflict, q, q, units, [], unit, stages, entries, ?_, ?_, nofun, fun _ => rfl⟩
        · rw [List.append_nil, entries]
        · rw [deduced.stats, size, Nat.add_sub_cancel_left]
          rfl
    | fixpoint =>
        obtain ⟨r, exhausted, more, _, counted⟩ := exhaustPure_spec coQ
        obtain ⟨pures, later, sizeR⟩ := more.exists_added
        refine ⟨.fixpoint, q, r, units, pures, unit, stages.trans exhausted, entries, ?_, ?_, ?_,
          nofun⟩
        · rw [later, entries]
        · rw [sizeR, Nat.add_sub_cancel_left] at counted
          rw [counted, deduced.stats, size, Nat.add_sub_cancel_left]
        · intro e he
          obtain ⟨before, after⟩ := coQ.value_of_added (coQ.grows more) later he
          exact purifies_of_exhaustPure unit coQ (settled rfl) exhausted before
            (by rw [after]; nofun)

theorem propagate_stages_chain :
    let f : Formula := ⟨5, [[1], [2, 3], [-3, 4, 5], [-4, -5]], by decide, by decide⟩
    let p : Progress := ⟨.empty f.numVariables, {}⟩
    Grows (.empty f.numVariables) p.trail ∧
      ∃ q r pures, p.unitPropagate f = (.ok .fixpoint, q) ∧
        p.propagate f true = q.exhaustPure f ∧ p.propagate f true = (.ok .fixpoint, r) ∧
        r.trail.chronological = ⟨1, true, .forced⟩ :: pures ∧
        r.stats.pureLiterals = pures.length ∧ ∀ e ∈ pures, p.Purifies f e.var := by
  intro f p
  have grown : Grows (.empty f.numVariables) p.trail := .refl
  let forced : Progress :=
    ⟨⟨5, #[none, some true, none, none, none, none], [⟨1, true, .forced⟩], 0⟩,
      { propagations := 1 }⟩
  have unit : p.unitPropagate f = (.ok .fixpoint, forced) := by with_unfolding_all rfl
  obtain ⟨stages, _, _, outcome, q, r, units, pures, unit', propagated, entries, later, counted,
    purified, _⟩ := propagate_stages grown
  rw [unit] at stages
  cases unit.symm.trans unit'
  have first : units = [⟨1, true, .forced⟩] := entries.symm
  refine ⟨grown, forced, r, pures, unit, stages, propagated, ?_, ?_, purified⟩
  · rw [later, first]
    rfl
  · rw [counted]
    exact Nat.zero_add _

end Progress

end Clausal

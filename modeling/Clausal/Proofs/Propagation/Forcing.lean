import Clausal.Proofs.Trail.Coherence
import Clausal.Propagation

/-!
Propagation never guesses. All it adds to a trail are forced entries, each of them is counted once,
as a propagation or as a pure literal, and it touches no other counter.
-/
namespace Clausal

namespace Trail

/-- `Follows t u`: `u` is `t` after some literals have been made true, none of them by decision. -/
inductive Follows (t : Trail) : Trail → Prop where
  | refl : Follows t t
  | force {u w : Trail} {l : Literal} : Follows t u → u.force l = .ok w → Follows t w

namespace Follows

variable {t u w : Trail}

theorem trans (tu : Follows t u) (uw : Follows u w) : Follows t w := by
  induction uw with
  | refl => exact tu
  | force _ forced ih => exact .force ih forced

theorem grows (h : Follows t u) : Grows t u := by
  induction h with
  | refl => exact .refl
  | force _ forced ih => exact .assign ih forced

theorem forced (h : Follows t u) :
    ∃ added, u.chronological = t.chronological ++ added ∧ ∀ e ∈ added, e.kind = .forced := by
  induction h with
  | refl => exact ⟨[], by simp, by simp⟩
  | @force u w l _ step ih =>
      obtain ⟨added, entries, forced⟩ := ih
      refine ⟨added ++ [⟨Literal.var l, Literal.isPositive l, .forced⟩], ?_, ?_⟩
      · rw [chronological_of_assign step, entries, List.append_assoc, Int.toNat_natCast]
      · intro e he
        rcases List.mem_append.1 he with he | he
        · exact forced e he
        · rw [List.mem_singleton.1 he]

end Follows

theorem follows_of_forceAll {t u : Trail} {literals : List Literal} {outcome : Except Fault Unit}
    (h : t.forceAll literals = (outcome, u)) : Follows t u := by
  induction literals generalizing t with
  | nil =>
      cases h
      exact .refl
  | cons l rest ih =>
      rw [forceAll] at h
      split at h
      · cases h
        exact .refl
      · rename_i forced
        exact (Follows.force .refl forced).trans (ih h)

end Trail

namespace Progress

/-- Progress by forced entries alone, each of them counted. -/
structure Forces (p q : Progress) : Prop where
  follows : p.trail.Follows q.trail
  counted : ∃ m n, q.trail.size = p.trail.size + (m + n) ∧
    q.stats = { p.stats with
      propagations := p.stats.propagations + m
      pureLiterals := p.stats.pureLiterals + n }

namespace Forces

variable {p q r : Progress}

theorem refl (p : Progress) : Forces p p :=
  ⟨.refl, 0, 0, rfl, rfl⟩

theorem trans (pq : Forces p q) (qr : Forces q r) : Forces p r := by
  obtain ⟨m, n, size, stats⟩ := pq.counted
  obtain ⟨m', n', size', stats'⟩ := qr.counted
  refine ⟨pq.follows.trans qr.follows, m + m', n + n', by omega, ?_⟩
  rw [stats', stats]
  simp only [Stats.mk.injEq, true_and, and_true]
  omega

theorem force {t : Trail} {l : Literal} (h : p.trail.force l = .ok t) :
    Forces p ⟨t, p.stats.addPropagation⟩ :=
  ⟨.force .refl h, 1, 0, Trail.size_of_assign h, rfl⟩

end Forces

variable {f : Formula} {p q : Progress}

theorem forces_of_unitPass {clauses : List Clause} {outcome : Except Fault Propagated}
    (h : p.unitPass clauses = (outcome, q)) : Forces p q := by
  induction clauses generalizing p with
  | nil =>
      cases h
      exact .refl _
  | cons c rest ih =>
      rw [unitPass] at h
      split at h
      · cases h
        exact .refl _
      · cases h
        exact .refl _
      · split at h
        · cases h
          exact .refl _
        · rename_i forced
          exact (Forces.force forced).trans (ih h)
      · exact ih h

theorem forces_of_unitPropagate {outcome : Except Fault Propagated}
    (h : p.unitPropagate f = (outcome, q)) : Forces p q := by
  fun_induction unitPropagate f p with
  | case1 p r pass | case3 p r pass | case4 p e r pass =>
      cases h
      exact forces_of_unitPass pass
  | case2 p r pass _ ih => exact (forces_of_unitPass pass).trans (ih h)

theorem forces_of_eliminatePure {n : Nat} (h : p.eliminatePure f = (.ok n, q)) : Forces p q := by
  rw [eliminatePure] at h
  split at h
  · cases h
  · dsimp only at h
    split at h
    · cases h
    · rename_i forced
      cases h
      exact ⟨Trail.follows_of_forceAll forced, 0, _, by rw [Trail.size_of_forceAll forced,
        Nat.zero_add], rfl⟩

theorem forces_of_propagate {pureLiterals : Bool} {outcome : Propagated}
    (h : p.propagate f pureLiterals = (.ok outcome, q)) : Forces p q := by
  fun_induction propagate f pureLiterals p with
  | case1 p q unit _ r eliminated =>
      cases h
      exact (forces_of_unitPropagate unit).trans (forces_of_eliminatePure eliminated)
  | case2 p q unit _ n r eliminated ih =>
      have round := (forces_of_unitPropagate unit).trans (forces_of_eliminatePure eliminated)
      exact round.trans (ih h)
  | case3 | case6 => cases h
  | case4 p q unit | case5 p q unit =>
      cases h
      exact forces_of_unitPropagate unit

end Progress

end Clausal

import Clausal.ClauseStatus
import Clausal.Formula
import Clausal.Stats
import Clausal.Trail.Growth

/-!
Propagation: unit clauses force their last open literal, and literals whose complement no longer
occurs are made true, until neither rule applies. Every step works on a trail and counters and
hands back both, also when it fails, so that what was done before a fault is kept.
-/
namespace Clausal

namespace Trail

/-- Makes the literals true one after the other. The second component is how far that went. -/
def forceAll (t : Trail) : List Literal → Except Fault Unit × Trail
  | [] => (.ok (), t)
  | l :: rest =>
    match t.force l with
    | .error e => (.error e, t)
    | .ok u => u.forceAll rest

end Trail

/-- What propagation changes. -/
structure Progress where
  trail : Trail
  stats : Stats

inductive Propagated where
  | conflict
  | fixpoint
deriving DecidableEq

namespace Propagated

def name : Propagated → String
  | .conflict => "conflict"
  | .fixpoint => "fixpoint"

end Propagated

namespace Progress

/-- One pass over the clauses, up to the first falsified one. A clause sees what the clauses
before it have forced. -/
def unitPass (p : Progress) : List Clause → Except Fault Propagated × Progress
  | [] => (.ok .fixpoint, p)
  | c :: rest =>
    match p.trail.clauseStatus c with
    | .error e => (.error e, p)
    | .ok .falsified => (.ok .conflict, p)
    | .ok (.unit l) =>
      match p.trail.force l with
      | .error e => (.error e, p)
      | .ok t => unitPass ⟨t, p.stats.addPropagation⟩ rest
    | .ok _ => unitPass p rest

end Progress

namespace Trail

theorem grows_of_force {t u : Trail} {l : Literal} (h : t.force l = .ok u) : Grows t u :=
  .assign .refl h

theorem grows_of_forceAll {t u : Trail} {literals : List Literal} {outcome : Except Fault Unit}
    (h : t.forceAll literals = (outcome, u)) : Grows t u := by
  induction literals generalizing t with
  | nil => cases h; exact .refl
  | cons l rest ih =>
    rw [forceAll] at h
    split at h
    · cases h; exact .refl
    · rename_i step
      exact (grows_of_force step).trans (ih h)

theorem size_of_forceAll {t u : Trail} {literals : List Literal}
    (h : t.forceAll literals = (.ok (), u)) : u.size = t.size + literals.length := by
  induction literals generalizing t with
  | nil =>
    simp only [forceAll, Prod.mk.injEq, true_and] at h
    simp [h]
  | cons l rest ih =>
    rw [forceAll] at h
    split at h
    · cases h
    · rename_i w step
      rw [ih h, size_of_assign step, List.length_cons]
      omega

end Trail

namespace Progress

theorem grows_of_unitPass {p q : Progress} {clauses : List Clause}
    {outcome : Except Fault Propagated} (h : p.unitPass clauses = (outcome, q)) :
    Trail.Grows p.trail q.trail := by
  induction clauses generalizing p with
  | nil => cases h; exact .refl
  | cons c rest ih =>
    rw [unitPass] at h
    split at h
    · cases h; exact .refl
    · cases h; exact .refl
    · split at h
      · cases h; exact .refl
      · rename_i t step
        exact (Trail.grows_of_force step).trans (ih h)
    · exact ih h

/-- Passes over the clauses are repeated until one of them forces nothing. -/
def unitPropagate (f : Formula) (p : Progress) : Except Fault Propagated × Progress :=
  match _pass : p.unitPass f.clauses with
  | (.ok .fixpoint, q) =>
    if q.trail.size = p.trail.size then (.ok .fixpoint, q) else unitPropagate f q
  | (.ok .conflict, q) => (.ok .conflict, q)
  | (.error e, q) => (.error e, q)
termination_by p.trail.free
decreasing_by
  have grown := grows_of_unitPass _pass
  have := grown.size_le
  exact grown.free_lt (by omega)

/-- Makes every pure literal true, by ascending variable, and gives their number. -/
def eliminatePure (f : Formula) (p : Progress) : Except Fault Nat × Progress :=
  match p.trail.residuals f.clauses with
  | .error e => (.error e, p)
  | .ok left =>
    let chosen := (p.trail.tally left.flatten).pureLiterals
    match p.trail.forceAll chosen with
    | (.error e, t) => (.error e, { p with trail := t })
    | (.ok (), t) => (.ok chosen.length, ⟨t, p.stats.addPureLiterals chosen.length⟩)

theorem grows_of_unitPropagate {f : Formula} {p q : Progress}
    {outcome : Except Fault Propagated} (h : p.unitPropagate f = (outcome, q)) :
    Trail.Grows p.trail q.trail := by
  fun_induction unitPropagate f p with
  | case1 p r pass => cases h; exact grows_of_unitPass pass
  | case2 p r pass _ ih => exact (grows_of_unitPass pass).trans (ih h)
  | case3 p r pass => cases h; exact grows_of_unitPass pass
  | case4 p e r pass => cases h; exact grows_of_unitPass pass

theorem grows_of_eliminatePure {f : Formula} {p q : Progress} {outcome : Except Fault Nat}
    (h : p.eliminatePure f = (outcome, q)) : Trail.Grows p.trail q.trail := by
  rw [eliminatePure] at h
  split at h
  · cases h; exact .refl
  · dsimp only at h
    split at h
    · rename_i forced
      cases h
      exact Trail.grows_of_forceAll forced
    · rename_i forced
      cases h
      exact Trail.grows_of_forceAll forced

theorem size_of_eliminatePure {f : Formula} {p q : Progress} {n : Nat}
    (h : p.eliminatePure f = (.ok n, q)) : q.trail.size = p.trail.size + n := by
  rw [eliminatePure] at h
  split at h
  · cases h
  · dsimp only at h
    split at h
    · cases h
    · rename_i forced
      cases h
      exact Trail.size_of_forceAll forced

/-- Both rules in turn, starting with unit clauses, until neither makes progress. -/
def propagate (f : Formula) (pureLiterals : Bool) (p : Progress) :
    Except Fault Propagated × Progress :=
  match _unit : p.unitPropagate f with
  | (.ok .fixpoint, q) =>
    if pureLiterals then
      match _eliminated : q.eliminatePure f with
      | (.ok 0, r) => (.ok .fixpoint, r)
      | (.ok (_ + 1), r) => propagate f pureLiterals r
      | (.error e, r) => (.error e, r)
    else (.ok .fixpoint, q)
  | (.ok .conflict, q) => (.ok .conflict, q)
  | (.error e, q) => (.error e, q)
termination_by p.trail.free
decreasing_by
  have := (grows_of_unitPropagate _unit).free_le
  have := size_of_eliminatePure _eliminated
  have := (grows_of_eliminatePure _eliminated).free_lt (by omega)
  omega

theorem grows_of_propagate {f : Formula} {pureLiterals : Bool} {p q : Progress}
    {outcome : Except Fault Propagated} (h : p.propagate f pureLiterals = (outcome, q)) :
    Trail.Grows p.trail q.trail := by
  fun_induction propagate f pureLiterals p with
  | case1 p q unit _ r eliminated | case3 p q unit _ e r eliminated =>
    cases h
    exact (grows_of_unitPropagate unit).trans (grows_of_eliminatePure eliminated)
  | case2 p q unit _ n r eliminated ih =>
    exact ((grows_of_unitPropagate unit).trans (grows_of_eliminatePure eliminated)).trans (ih h)
  | case4 p q unit | case5 p q unit | case6 p e q unit =>
    cases h
    exact grows_of_unitPropagate unit

end Progress

end Clausal

import Clausal.Proofs.Propagation.Closure
import Clausal.Proofs.Propagation.PureLiteral

/-!
Propagation as a whole. It always ends in a conflict or a fixpoint. After a conflict no model agrees
with the trail it started on; at a fixpoint every clause is settled, and a model of the start is a
model of the end once the trail is laid over it. Without pure literals it need not even be changed.
-/
namespace Clausal.Progress

open Trail

/-- Progress that loses no satisfiability, and no model unless pure literals are eliminated. -/
structure Reduces (f : Formula) (pureLiterals : Bool) (p q : Progress) : Prop where
  grown : Grows p.trail q.trail
  holds_override : ∀ ν, p.trail.Agrees ν → f.holds ν = true → f.holds (q.trail.override ν) = true
  agrees : pureLiterals = false → ∀ ν, p.trail.Agrees ν → f.holds ν = true → q.trail.Agrees ν

variable {f : Formula} {pureLiterals : Bool} {p q r : Progress}

theorem Deduced.agrees (h : Deduced f p q) {ν : Nat → Bool} (agrees : p.trail.Agrees ν)
    (model : f.holds ν = true) (co : Coherent f.numVariables p.trail) : q.trail.Agrees ν :=
  (h.coherent co).agrees_of_holds fun l asserted =>
    holds_of_derives agrees model (h.derived l asserted)

theorem Deduced.reduces (h : Deduced f p q) (co : Coherent f.numVariables p.trail) :
    Reduces f pureLiterals p q where
  grown := h.grown
  holds_override ν agrees model := by
    rwa [override_of_agrees (h.agrees agrees model co)]
  agrees _ _ agrees model := h.agrees agrees model co

theorem reduces_of_eliminatePure {n : Nat} (co : Coherent f.numVariables p.trail)
    (h : p.eliminatePure f = (.ok n, q)) : Reduces f true p q := by
  obtain ⟨_, forced, _⟩ := eliminatePure_eq_ok co h
  exact ⟨grows_of_forceAll forced, fun ν => holds_override_of_pure co forced, by simp⟩

theorem Reduces.trans (pq : Reduces f pureLiterals p q) (qr : Reduces f pureLiterals q r) :
    Reduces f pureLiterals p r where
  grown := pq.grown.trans qr.grown
  holds_override ν agrees model := by
    rw [← override_override qr.grown]
    exact qr.holds_override _ (agrees_override _ _) (pq.holds_override ν agrees model)
  agrees off ν agrees model := qr.agrees off ν (pq.agrees off ν agrees model) model

theorem Reduces.not_holds (pq : Reduces f pureLiterals p q)
    (conflict : ∀ ν, q.trail.Agrees ν → f.holds ν ≠ true) :
    ∀ ν, p.trail.Agrees ν → f.holds ν ≠ true :=
  fun ν agrees model =>
    conflict _ (agrees_override q.trail ν) (pq.holds_override ν agrees model)

theorem Deduced.not_holds {c : Clause} (h : Deduced f p q) (hc : c ∈ f.clauses)
    (denied : ∀ l ∈ c, q.trail.Asserts (-l)) : ∀ ν, p.trail.Agrees ν → f.holds ν ≠ true :=
  fun _ agrees => not_holds_of_derives_neg agrees hc fun l hl => h.derived _ (denied l hl)

theorem propagate_eq (f : Formula) (pureLiterals : Bool) (p : Progress) :
    p.propagate f pureLiterals =
      match p.unitPropagate f with
      | (.ok .fixpoint, q) =>
        if pureLiterals then
          match q.eliminatePure f with
          | (.ok 0, r) => (.ok .fixpoint, r)
          | (.ok (_ + 1), r) => r.propagate f pureLiterals
          | (.error e, r) => (.error e, r)
        else (.ok .fixpoint, q)
      | (.ok .conflict, q) => (.ok .conflict, q)
      | (.error e, q) => (.error e, q) := by
  rw [propagate]
  rcases p.unitPropagate f with ⟨_ | _ | _, q⟩
  · rfl
  · rfl
  · dsimp only
    rcases q.eliminatePure f with ⟨_ | _ | _, r⟩ <;> rfl

theorem propagate_spec (pureLiterals : Bool) (p : Progress) (co : Coherent f.numVariables p.trail) :
    ∃ outcome q, p.propagate f pureLiterals = (.ok outcome, q) ∧
      (outcome = .conflict → ∀ ν, p.trail.Agrees ν → f.holds ν ≠ true) ∧
      (outcome = .fixpoint → Reduces f pureLiterals p q ∧ ∀ c ∈ f.clauses, q.trail.Settles c) := by
  fun_induction propagate f pureLiterals p with
  | case1 p q unit on r eliminated =>
      obtain ⟨deduced, settled⟩ := deduced_of_unitPropagate co unit
      have coQ := deduced.coherent co
      have reduced := reduces_of_eliminatePure coQ eliminated
      have same := reduced.grown.eq_of_size (size_of_eliminatePure eliminated)
      refine ⟨.fixpoint, r, rfl, by simp, fun _ => ⟨?_, ?_⟩⟩
      · exact on ▸ (deduced.reduces co).trans reduced
      · rwa [same]
  | case2 p q unit on n r eliminated ih =>
      obtain ⟨deduced, _⟩ := deduced_of_unitPropagate co unit
      have coQ := deduced.coherent co
      have reduced : Reduces f true p r :=
        (deduced.reduces co).trans (reduces_of_eliminatePure coQ eliminated)
      obtain ⟨outcome, s, repeated, conflict, fixpoint⟩ := ih (co.grows reduced.grown)
      refine ⟨outcome, s, repeated, fun ended => reduced.not_holds (conflict ended), ?_⟩
      intro ended
      obtain ⟨more, settled⟩ := fixpoint ended
      exact ⟨(on ▸ reduced).trans more, settled⟩
  | case3 p q unit on e r eliminated =>
      obtain ⟨deduced, _⟩ := deduced_of_unitPropagate co unit
      obtain ⟨_, _, eliminated'⟩ := eliminatePure_spec (deduced.coherent co)
      cases eliminated.symm.trans eliminated'
  | case4 p q unit off =>
      obtain ⟨deduced, settled⟩ := deduced_of_unitPropagate co unit
      exact ⟨.fixpoint, q, rfl, by simp, fun _ => ⟨deduced.reduces co, settled⟩⟩
  | case5 p q unit =>
      obtain ⟨_, _, unit', deduced, conflict, _⟩ := unitPropagate_spec co
      cases unit.symm.trans unit'
      obtain ⟨c, hc, denied⟩ := conflict rfl
      exact ⟨.conflict, q, rfl, fun _ => deduced.not_holds hc denied, by simp⟩
  | case6 p e q unit =>
      obtain ⟨_, _, unit', _⟩ := unitPropagate_spec co
      cases unit.symm.trans unit'

theorem not_holds_of_propagate (co : Coherent f.numVariables p.trail)
    (h : p.propagate f pureLiterals = (.ok .conflict, q)) {ν : Nat → Bool}
    (agrees : p.trail.Agrees ν) : f.holds ν ≠ true := by
  obtain ⟨_, _, h', conflict, _⟩ := propagate_spec pureLiterals p co
  cases h.symm.trans h'
  exact conflict rfl ν agrees

theorem reduces_of_propagate (co : Coherent f.numVariables p.trail)
    (h : p.propagate f pureLiterals = (.ok .fixpoint, q)) :
    Reduces f pureLiterals p q ∧ ∀ c ∈ f.clauses, q.trail.Settles c := by
  obtain ⟨_, _, h', _, fixpoint⟩ := propagate_spec pureLiterals p co
  cases h.symm.trans h'
  exact fixpoint rfl

end Clausal.Progress

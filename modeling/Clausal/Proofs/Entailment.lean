import Clausal.Proofs.ClauseStatus
import Mathlib.Data.List.Nodup

/-!
What the status of a clause says about the valuations that agree with the trail. A falsified clause
is false under all of them; a unit clause is true under some of them and false under others, and
where it is true so is its open literal; a satisfied clause has a literal that is true already.
-/
namespace Clausal

namespace Trail

/-- Of the valuations that agree with the trail some satisfy the clause and some do not, and those
that do make an unassigned literal true. -/
structure Forces (t : Trail) (c : Clause) (l : Literal) : Prop where
  satisfiable : ∃ ν, t.Agrees ν ∧ Clause.holds ν c = true
  falsifiable : ∃ ν, t.Agrees ν ∧ Clause.holds ν c = false
  unassigned : t.value (Literal.var l) = none
  entailed : ∀ ν, t.Agrees ν → Clause.holds ν c = true → Literal.holds ν l = true

/-- A clause has the status exactly when it fares like this under the valuations that agree with the
trail. -/
structure Classifies (t : Trail) (c : Clause) (status : ClauseStatus) : Prop where
  falsified : status = .falsified ↔ ∀ ν, t.Agrees ν → Clause.holds ν c = false
  unit : ∀ l, status = .unit l ↔ t.Forces c l
  satisfied : status = .satisfied ↔ ∃ l ∈ c, t.literalValue l = .ok (some true)

variable {t : Trail} {c : Clause} {k l : Literal} {ν : Nat → Bool} {status : ClauseStatus}

theorem not_holds_of_asserts_neg (nonzero : l ≠ 0) (agrees : t.Agrees ν)
    (denied : t.Asserts (-l)) : Literal.holds ν l = false :=
  Bool.eq_false_iff.2 fun true_ =>
    Literal.not_holds_neg nonzero true_ (holds_of_asserts agrees denied)

theorem holds_override_of_open (fresh : t.value (Literal.var l) = none) (ν : Nat → Bool) :
    Literal.holds (t.override ν) l = Literal.holds ν l := by
  simp only [Literal.holds, override, fresh, Option.getD_none]

/-- Where two literals are open, one can be made true and the other one false. -/
theorem exists_holds_of_ne (nonzero : k ≠ 0) (other : k ≠ l)
    (freshK : t.value (Literal.var k) = none) (freshL : t.value (Literal.var l) = none) :
    ∃ ν, t.Agrees ν ∧ Literal.holds ν k = true ∧ Literal.holds ν l = false := by
  let ν : Nat → Bool := fun v => if v = Literal.var k then k.isPositive else !l.isPositive
  refine ⟨t.override ν, agrees_override t ν, ?_, ?_⟩
  · simp [holds_override_of_open freshK, Literal.holds_iff, ν]
  · rw [holds_override_of_open freshL, Bool.eq_false_iff, ne_eq, Literal.holds_iff]
    by_cases same : Literal.var l = Literal.var k
    · have sign : l.isPositive ≠ k.isPositive := fun sign =>
        other (Literal.eq_of_var_eq nonzero same sign).symm
      simpa [ν, same] using sign.symm
    · simp [ν, same]

theorem exists_holds_of_open (hl : l ∈ c) (fresh : t.value (Literal.var l) = none) :
    ∃ ν, t.Agrees ν ∧ Clause.holds ν c = true := by
  let ν : Nat → Bool := fun _ => l.isPositive
  refine ⟨t.override ν, agrees_override t ν, Clause.holds_iff.2 ⟨l, hl, ?_⟩⟩
  rw [holds_override_of_open fresh, Literal.holds_iff]

/-- No open literal of the clause but the forced one can be true without it. -/
theorem Forces.eq_of_open (forces : t.Forces c l) (hk : k ∈ c) (nonzero : k ≠ 0)
    (fresh : t.value (Literal.var k) = none) : k = l := by
  by_contra other
  obtain ⟨ν, agrees, true_, false_⟩ := exists_holds_of_ne nonzero other fresh forces.unassigned
  have entailed := forces.entailed ν agrees (Clause.holds_iff.2 ⟨k, hk, true_⟩)
  exact Bool.eq_false_iff.1 false_ entailed

namespace Judges

theorem not_holds (judged : t.Judges c .falsified) (nonzero : ∀ l ∈ c, l ≠ 0)
    (agrees : t.Agrees ν) : Clause.holds ν c = false := by
  cases judged with
  | falsified denied =>
      apply Bool.eq_false_iff.2
      intro model
      obtain ⟨l, hl, true_⟩ := Clause.holds_iff.1 model
      rw [not_holds_of_asserts_neg (nonzero l hl) agrees (denied l hl)] at true_
      cases true_

theorem holds (judged : t.Judges c .satisfied) (agrees : t.Agrees ν) :
    Clause.holds ν c = true := by
  cases judged with
  | satisfied hl asserted => exact Clause.holds_iff.2 ⟨_, hl, holds_of_asserts agrees asserted⟩

theorem forces (judged : t.Judges c (.unit l)) (nonzero : ∀ l ∈ c, l ≠ 0) : t.Forces c l := by
  cases judged with
  | unit hl fresh denied =>
      have others (ν : Nat → Bool) (agrees : t.Agrees ν) :
          Clause.holds ν c = true ↔ Literal.holds ν l = true := by
        constructor
        · intro model
          obtain ⟨k, hk, true_⟩ := Clause.holds_iff.1 model
          by_cases same : k = l
          · exact same ▸ true_
          · rw [not_holds_of_asserts_neg (nonzero k hk) agrees (denied k hk same)] at true_
            cases true_
        · intro true_
          exact Clause.holds_iff.2 ⟨l, hl, true_⟩
      let ν : Nat → Bool := fun _ => !l.isPositive
      refine ⟨exists_holds_of_open hl fresh, ⟨t.override ν, agrees_override t ν, ?_⟩, fresh,
        fun μ agrees => (others μ agrees).1⟩
      rw [Bool.eq_false_iff, ne_eq, others _ (agrees_override t ν), holds_override_of_open fresh,
        Literal.holds_iff]
      simp [ν]

theorem exists_holds (judged : t.Judges c status) (live : status ≠ .falsified) :
    ∃ ν, t.Agrees ν ∧ Clause.holds ν c = true := by
  cases judged with
  | satisfied hl asserted =>
      exact ⟨_, agrees_override t fun _ => true, holds (.satisfied hl asserted)
        (agrees_override t _)⟩
  | falsified _ => exact absurd rfl live
  | unit hl fresh _ => exact exists_holds_of_open hl fresh
  | undetermined _ _ hl _ _ fresh => exact exists_holds_of_open hl fresh

theorem falsified_iff (judged : t.Judges c status) (nonzero : ∀ l ∈ c, l ≠ 0) :
    status = .falsified ↔ ∀ ν, t.Agrees ν → Clause.holds ν c = false := by
  constructor
  · rintro rfl ν agrees
    exact judged.not_holds nonzero agrees
  · intro refuted
    by_contra live
    obtain ⟨ν, agrees, model⟩ := judged.exists_holds live
    exact Bool.eq_false_iff.1 (refuted ν agrees) model

theorem unit_iff (judged : t.Judges c status) (nonzero : ∀ l ∈ c, l ≠ 0) :
    status = .unit l ↔ t.Forces c l := by
  constructor
  · rintro rfl
    exact judged.forces nonzero
  · intro forces
    cases judged with
    | satisfied hk asserted =>
        obtain ⟨ν, agrees, refuted⟩ := forces.falsifiable
        exact absurd (holds (.satisfied hk asserted) agrees) (Bool.eq_false_iff.1 refuted)
    | falsified denied =>
        obtain ⟨ν, agrees, model⟩ := forces.satisfiable
        exact absurd model (Bool.eq_false_iff.1 (not_holds (.falsified denied) nonzero agrees))
    | unit hk fresh _ => rw [forces.eq_of_open hk (nonzero _ hk) fresh]
    -- Two open literals cannot both be the forced one.
    | undetermined _ hk hm other freshK freshM =>
        have sameK := forces.eq_of_open hk (nonzero _ hk) freshK
        have sameM := forces.eq_of_open hm (nonzero _ hm) freshM
        exact absurd (sameK.trans sameM.symm) other

theorem satisfied_iff (judged : t.Judges c status) (nonzero : ∀ l ∈ c, l ≠ 0) :
    status = .satisfied ↔ ∃ l ∈ c, t.Asserts l := by
  constructor
  · rintro rfl
    cases judged with
    | satisfied hl asserted => exact ⟨_, hl, asserted⟩
  · rintro ⟨l, hl, asserted⟩
    cases judged with
    | satisfied => rfl
    | falsified denied =>
        exact absurd (denied l hl) (not_asserts_neg (nonzero l hl) asserted)
    | @unit k _ fresh denied =>
        by_cases same : l = k
        · rw [same, Asserts, fresh] at asserted
          cases asserted
        · exact absurd (denied l hl same) (not_asserts_neg (nonzero l hl) asserted)
    | undetermined unsatisfied => exact absurd asserted (unsatisfied l hl)

end Judges

theorem Coherent.literalValue_eq_true_iff {n : Nat} (co : Coherent n t)
    (inside : Literal.var l ≤ n) : t.literalValue l = .ok (some true) ↔ t.Asserts l := by
  rw [co.literalValue_eq inside, Asserts]
  simp [Literal.under]

/-- The table and the list of assignments in order give the same values. -/
theorem Coherent.valuation_assignment {n : Nat} (co : Coherent n t) :
    t.assignment.valuation = t.value := by
  have keys : t.assignment.map Prod.fst = (t.entries.map Entry.var).reverse.map Nat.cast := by
    simp [assignment, chronological]
  have distinct : (t.assignment.map Prod.fst).Nodup :=
    keys ▸ (List.nodup_reverse.2 co.distinct).map fun _ _ => Int.ofNat.inj
  funext v
  apply Option.ext
  intro b
  rw [Assignment.valuation, Assignment.lookup_eq_some_iff distinct, co.value_iff]
  simp only [assignment, chronological, List.map_reverse, List.mem_reverse, List.mem_map,
    Prod.mk.injEq, Int.natCast_inj]

theorem Coherent.exists_classifies {f : Formula} (co : Coherent f.numVariables t)
    (hc : c ∈ f.clauses) : ∃ status, t.clauseStatus c = .ok status ∧ t.Classifies c status := by
  obtain ⟨status, scanned, judged⟩ := co.exists_clauseStatus hc
  have nonzero : ∀ l ∈ c, l ≠ 0 := fun l hl => Formula.ne_zero_of_mem hc hl
  refine ⟨status, scanned, judged.falsified_iff nonzero, fun l => judged.unit_iff nonzero, ?_⟩
  rw [judged.satisfied_iff nonzero]
  refine exists_congr fun l => and_congr_right fun hl => ?_
  rw [co.literalValue_eq_true_iff (Formula.var_le_of_mem hc hl)]

theorem holds_of_satisfiedBy_value {f : Formula} (satisfied : f.satisfiedBy t.value = true)
    (agrees : t.Agrees ν) : f.holds ν = true := by
  apply Formula.holds_iff.2
  intro c hc
  obtain ⟨l, hl, asserted⟩ := satisfiedBy_value_iff.1 (Formula.satisfiedBy_iff.1 satisfied c hc)
  exact ⟨l, hl, holds_of_asserts agrees asserted⟩

/-- On any trail over the variables of a formula every clause has a status, and it says how the
clause fares under the valuations that agree with the trail. All clauses are satisfied exactly when
the assignment so far satisfies the formula, and then every valuation that agrees with it does. -/
theorem clauseStatus_classifies {f : Formula} (grown : Grows (.empty f.numVariables) t) :
    (∀ c ∈ f.clauses, ∃ status, t.clauseStatus c = .ok status ∧ t.Classifies c status) ∧
      t.allSatisfied f.clauses = .ok (f.satisfiedBy t.assignment.valuation) ∧
      (t.allSatisfied f.clauses = .ok true → ∀ ν, t.Agrees ν → f.holds ν = true) := by
  have co := (coherent_empty f.numVariables).grows grown
  have scanned : t.allSatisfied f.clauses = .ok (f.satisfiedBy t.value) :=
    co.allSatisfied_eq fun c hc l hl => Formula.var_le_of_mem hc hl
  refine ⟨fun c hc => co.exists_classifies hc, ?_, ?_⟩
  · rw [scanned, co.valuation_assignment]
  · intro all ν agrees
    exact holds_of_satisfiedBy_value (Except.ok.inj (scanned.symm.trans all)) agrees

theorem clauseStatus_classifies_tautology :
    let f : Formula := ⟨3, [[-1, 2], [-1, 3], [3, -3], [1, 3]], by decide, by decide⟩
    let t : Trail :=
      ⟨3, #[none, some true, some false, none], [⟨2, false, .forced⟩, ⟨1, true, .decision⟩], 1⟩
    Grows (.empty f.numVariables) t ∧
      (∀ ν, t.Agrees ν → Clause.holds ν [-1, 2] = false) ∧ t.Forces [-1, 3] 3 ∧
      (∀ l, ¬t.Forces [3, -3] l) ∧ t.literalValue 1 = .ok (some true) ∧
      f.satisfiedBy t.assignment.valuation = false := by
  intro f t
  let first : Trail := ⟨3, #[none, some true, none, none], [⟨1, true, .decision⟩], 1⟩
  have decided : (Trail.empty f.numVariables).assign 1 true .decision = .ok first := rfl
  have forced : first.assign 2 false .forced = .ok t := rfl
  have grown : Grows (.empty f.numVariables) t := .assign (.assign .refl decided) forced
  obtain ⟨classified, all, _⟩ := clauseStatus_classifies grown
  obtain ⟨_, falsified, isFalsified⟩ := classified [-1, 2] (by decide)
  obtain ⟨_, unit, isUnit⟩ := classified [-1, 3] (by decide)
  obtain ⟨_, undetermined, isUndetermined⟩ := classified [3, -3] (by decide)
  cases (show t.clauseStatus [-1, 2] = .ok .falsified from rfl).symm.trans falsified
  cases (show t.clauseStatus [-1, 3] = .ok (.unit 3) from rfl).symm.trans unit
  cases (show t.clauseStatus [3, -3] = .ok .undetermined from rfl).symm.trans undetermined
  have unsatisfied : t.allSatisfied f.clauses = .ok false := rfl
  have free (l : Literal) (forces : t.Forces [3, -3] l) : False := by
    cases (isUndetermined.unit l).2 forces
  exact ⟨grown, isFalsified.falsified.1 rfl, (isUnit.unit 3).1 rfl, free, rfl,
    Except.ok.inj (all.symm.trans unsatisfied)⟩

end Trail

end Clausal

import Clausal.Proofs.Trail.Agreement

/-!
What the scan of a clause finds out. On a trail that has a cell for every literal of the clause the
scan always gives a status, and each status says how the literals of the clause stand on the trail.
-/
namespace Clausal

namespace ClauseStatus

/-- The status of a clause without a true literal, given its open literals. -/
def ofOpen : List Literal → ClauseStatus
  | [] => .falsified
  | [l] => .unit l
  | _ :: _ :: _ => .undetermined

theorem foldl_withOpen_undetermined (ls : List Literal) :
    ls.foldl withOpen .undetermined = .undetermined := by
  induction ls with
  | nil => rfl
  | cons l ls ih => exact ih

theorem foldl_withOpen_falsified (ls : List Literal) :
    ls.foldl withOpen .falsified = ofOpen ls := by
  match ls with
  | [] | [_] => rfl
  | _ :: _ :: ls => exact foldl_withOpen_undetermined ls

theorem ofOpen_ne_satisfied (ls : List Literal) : ofOpen ls ≠ .satisfied := by
  match ls with
  | [] | [_] | _ :: _ :: _ => simp [ofOpen]

theorem ofOpen_eq_undetermined_iff {ls : List Literal} :
    ofOpen ls = .undetermined ↔ 2 ≤ ls.length := by
  match ls with
  | [] | [_] | _ :: _ :: _ => simp [ofOpen]

end ClauseStatus

namespace Trail

/-- How the literals of a clause stand on the trail when the clause has a given status. -/
inductive Judges (t : Trail) (c : Clause) : ClauseStatus → Prop where
  | satisfied {l : Literal} : l ∈ c → t.Asserts l → Judges t c .satisfied
  | falsified : (∀ l ∈ c, t.Asserts (-l)) → Judges t c .falsified
  | unit {l : Literal} : l ∈ c → t.value (Literal.var l) = none →
      (∀ k ∈ c, k ≠ l → t.Asserts (-k)) → Judges t c (.unit l)
  | undetermined {k l : Literal} : (∀ m ∈ c, ¬t.Asserts m) → k ∈ c → l ∈ c → k ≠ l →
      t.value (Literal.var k) = none → t.value (Literal.var l) = none → Judges t c .undetermined

theorem mem_openLiterals {t : Trail} {c : Clause} {l : Literal} :
    l ∈ t.openLiterals c ↔ l ∈ c ∧ t.value (Literal.var l) = none := by
  simp [openLiterals]

namespace Coherent

variable {n : Nat} {t : Trail} {c : Clause}

theorem statusFrom_eq (co : Coherent n t) (inside : ∀ l ∈ c, Literal.var l ≤ n)
    (seen : ClauseStatus) :
    t.statusFrom seen c = .ok (if c.satisfiedBy t.value then .satisfied
      else (t.openLiterals c).foldl ClauseStatus.withOpen seen) := by
  induction c generalizing seen with
  | nil => rfl
  | cons l rest ih =>
      have tail := ih fun k hk => inside k (List.mem_cons_of_mem _ hk)
      rw [statusFrom, co.literalValue_eq (inside l List.mem_cons_self)]
      cases held : t.value (Literal.var l) with
      | none => simp [tail, Clause.satisfiedBy, openLiterals, held]
      | some b =>
          cases under : Literal.under l b with
          | true =>
              have same : b = Literal.isPositive l := by simpa [Literal.under] using under
              simp only [Option.map_some, under]
              simp [Clause.satisfiedBy, held, same]
          | false =>
              have other : b ≠ Literal.isPositive l := by simpa [Literal.under] using under
              simp [tail, Clause.satisfiedBy, openLiterals, held, under, other]

theorem clauseStatus_eq (co : Coherent n t) (inside : ∀ l ∈ c, Literal.var l ≤ n) :
    t.clauseStatus c = .ok (if c.satisfiedBy t.value then .satisfied
      else .ofOpen (t.openLiterals c)) := by
  rw [clauseStatus, co.statusFrom_eq inside, ClauseStatus.foldl_withOpen_falsified]

theorem judges_ofOpen (distinct : c.Nodup) (nonzero : ∀ l ∈ c, l ≠ 0)
    (unsatisfied : ∀ l ∈ c, ¬t.Asserts l) : t.Judges c (.ofOpen (t.openLiterals c)) := by
  have denied : ∀ l ∈ c, l ∉ t.openLiterals c → t.Asserts (-l) := by
    intro l hl closed
    have assigned : t.value (Literal.var l) ≠ none := fun open_ =>
      closed (mem_openLiterals.2 ⟨hl, open_⟩)
    exact (asserts_or_neg (nonzero l hl) assigned).resolve_left (unsatisfied l hl)
  match left : t.openLiterals c with
  | [] => exact .falsified fun l hl => denied l hl (by simp [left])
  | [l] =>
      have hl := mem_openLiterals.1 (left ▸ List.mem_singleton_self l)
      exact .unit hl.1 hl.2 fun k hk other => denied k hk (by simp [left, other])
  | k :: l :: rest =>
      have hk : k ∈ c ∧ _ := mem_openLiterals.1 (left ▸ List.mem_cons_self)
      have hl : l ∈ c ∧ _ := mem_openLiterals.1 (left ▸ List.mem_cons_of_mem k List.mem_cons_self)
      have nodup : (k :: l :: rest).Nodup := left ▸ distinct.filter _
      have other : k ≠ l := fun same => (List.nodup_cons.1 nodup).1 (same ▸ List.mem_cons_self)
      exact .undetermined unsatisfied hk.1 hl.1 other hk.2 hl.2

theorem exists_clauseStatus {f : Formula} (co : Coherent f.numVariables t)
    (hc : c ∈ f.clauses) : ∃ status, t.clauseStatus c = .ok status ∧ t.Judges c status := by
  refine ⟨_, co.clauseStatus_eq fun l hl => Formula.var_le_of_mem hc hl, ?_⟩
  split
  · rename_i satisfied
    obtain ⟨l, hl, asserted⟩ := satisfiedBy_value_iff.1 satisfied
    exact .satisfied hl asserted
  · rename_i unsatisfied
    rw [satisfiedBy_value_iff] at unsatisfied
    exact judges_ofOpen (f.nodup c hc) (fun l hl => Formula.ne_zero_of_mem hc hl)
      fun l hl asserted => unsatisfied ⟨l, hl, asserted⟩

theorem allSatisfied_eq (co : Coherent n t) {clauses : List Clause}
    (inside : ∀ c ∈ clauses, ∀ l ∈ c, Literal.var l ≤ n) :
    t.allSatisfied clauses = .ok (clauses.all (Clause.satisfiedBy t.value)) := by
  induction clauses with
  | nil => rfl
  | cons c rest ih =>
      have tail := ih fun d hd => inside d (List.mem_cons_of_mem _ hd)
      rw [allSatisfied, co.clauseStatus_eq (inside c List.mem_cons_self)]
      by_cases satisfied : c.satisfiedBy t.value = true
      · simp [satisfied, tail]
      · rw [if_neg satisfied, List.all_cons, Bool.eq_false_iff.2 satisfied, Bool.false_and]
        match t.openLiterals c with
        | [] | [_] | _ :: _ :: _ => rfl

theorem residuals_eq (co : Coherent n t) {clauses : List Clause}
    (inside : ∀ c ∈ clauses, ∀ l ∈ c, Literal.var l ≤ n) :
    t.residuals clauses =
      .ok ((clauses.filter fun c => !c.satisfiedBy t.value).map t.openLiterals) := by
  induction clauses with
  | nil => rfl
  | cons c rest ih =>
      have tail := ih fun d hd => inside d (List.mem_cons_of_mem _ hd)
      rw [residuals, co.clauseStatus_eq (inside c List.mem_cons_self), tail]
      by_cases satisfied : c.satisfiedBy t.value = true
      · simp [satisfied]
      · simp [satisfied, ClauseStatus.ofOpen_ne_satisfied]

end Coherent

end Trail

end Clausal

import Clausal.Proofs.Literal
import Clausal.Tally
import Mathlib.Data.List.Nodup

/-!
Tallies count. Within the bound a tally gives the number of occurrences of a literal or a variable
in the tallied list, so it does not depend on the order of the list, and the pure literals are
those whose complement does not occur in it.
-/
namespace Clausal.Tally

@[simp]
theorem size_add (τ : Tally) (k : Literal) : (τ.add k).counts.size = τ.counts.size := by
  simp [add]

theorem count_add (τ : Tally) (k : Literal) {l : Literal} (nonzero : l ≠ 0)
    (bound : Literal.var l < τ.counts.size) :
    (τ.add k).count l = τ.count l + if k = l then 1 else 0 := by
  simp only [count, add, Array.getElem?_modify, Array.getElem?_eq_getElem bound]
  by_cases var : Literal.var k = Literal.var l
  · by_cases sign : Literal.isPositive k = Literal.isPositive l
    · have same := Literal.eq_of_var_eq nonzero var sign
      cases positive : Literal.isPositive l <;> simp [same, positive]
    · have other : k ≠ l := fun same => sign (same ▸ rfl)
      cases positive : Literal.isPositive l <;> simp_all
  · have other : k ≠ l := fun same => var (same ▸ rfl)
    simp [var, other]

theorem total_add (τ : Tally) (k : Literal) {v : Nat} (bound : v < τ.counts.size) :
    (τ.add k).total v = τ.total v + if Literal.var k = v then 1 else 0 := by
  simp only [total, add, Array.getElem?_modify, Array.getElem?_eq_getElem bound]
  by_cases var : Literal.var k = v
  · cases Literal.isPositive k <;> simp [var] <;> omega
  · simp [var]

theorem add_right_comm (τ : Tally) (k l : Literal) : (τ.add k).add l = (τ.add l).add k := by
  simp only [add, mk.injEq]
  apply Array.ext_getElem?
  intro i
  simp only [Array.getElem?_modify]
  by_cases atK : Literal.var k = i <;> by_cases atL : Literal.var l = i <;>
    cases Literal.isPositive k <;> cases Literal.isPositive l <;>
    cases τ.counts[i]? <;> simp [atK, atL]

theorem size_foldl_add (ls : List Literal) (τ : Tally) :
    (ls.foldl add τ).counts.size = τ.counts.size := by
  induction ls generalizing τ with
  | nil => rfl
  | cons k ls ih => rw [List.foldl_cons, ih, size_add]

theorem count_foldl_add (ls : List Literal) (τ : Tally) {l : Literal} (nonzero : l ≠ 0)
    (bound : Literal.var l < τ.counts.size) :
    (ls.foldl add τ).count l = τ.count l + ls.count l := by
  induction ls generalizing τ with
  | nil => rfl
  | cons k ls ih =>
      rw [List.foldl_cons, ih _ (by rwa [size_add]), count_add τ k nonzero bound, List.count_cons]
      simp only [beq_iff_eq]
      omega

theorem total_foldl_add (ls : List Literal) (τ : Tally) {v : Nat} (bound : v < τ.counts.size) :
    (ls.foldl add τ).total v = τ.total v + ls.countP fun k => Literal.var k == v := by
  induction ls generalizing τ with
  | nil => rfl
  | cons k ls ih =>
      rw [List.foldl_cons, ih _ (by rwa [size_add]), total_add τ k bound, List.countP_cons]
      simp only [beq_iff_eq]
      omega

theorem count_add_count_neg (τ : Tally) {v : Nat} (positive : 1 ≤ v) :
    τ.count v + τ.count (-(v : Int)) = τ.total v := by
  simp only [count, total, Literal.var_neg, Literal.var_natCast,
    Literal.isPositive_natCast positive, Literal.isPositive_neg_natCast]
  cases τ.counts[v]? with
  | none => rfl
  | some cell => rfl

variable {bound : Nat} {ls : List Literal}

theorem vars_ofLiterals : (ofLiterals bound ls).vars = List.range' 1 (bound - 1) := by
  rw [vars, ofLiterals, size_foldl_add]
  simp

theorem mem_vars {v : Nat} : v ∈ (ofLiterals bound ls).vars ↔ 1 ≤ v ∧ v < bound := by
  rw [vars_ofLiterals, List.mem_range'_1]
  omega

theorem count_ofLiterals {l : Literal} (nonzero : l ≠ 0) (inside : Literal.var l < bound) :
    (ofLiterals bound ls).count l = ls.count l := by
  rw [ofLiterals, count_foldl_add _ _ nonzero (by simpa)]
  simp [count, inside]

theorem total_ofLiterals {v : Nat} (inside : v < bound) :
    (ofLiterals bound ls).total v = ls.countP fun k => Literal.var k == v := by
  rw [ofLiterals, total_foldl_add _ _ (by simpa)]
  simp [total, inside]

theorem count_pos_iff {l : Literal} (nonzero : l ≠ 0) :
    0 < (ofLiterals bound ls).count l ↔ Literal.var l < bound ∧ l ∈ ls := by
  by_cases inside : Literal.var l < bound
  · rw [count_ofLiterals nonzero inside, List.count_pos_iff, and_iff_right inside]
  · have outside : (ofLiterals bound ls).counts[Literal.var l]? = none := by
      rw [Array.getElem?_eq_none_iff, ofLiterals, size_foldl_add, Array.size_replicate]
      omega
    simp [count, outside, inside]

theorem ofLiterals_perm {ms : List Literal} (h : ls.Perm ms) :
    ofLiterals bound ls = ofLiterals bound ms :=
  h.foldl_eq' (fun k _ l _ τ => add_right_comm τ k l) _

theorem mem_candidates {l : Literal} :
    l ∈ (ofLiterals bound ls).candidates ↔ l ≠ 0 ∧ Literal.var l < bound := by
  simp only [candidates, List.mem_flatMap, mem_vars, List.mem_cons, List.not_mem_nil, or_false]
  constructor
  · rintro ⟨v, ⟨low, high⟩, rfl | rfl⟩
    · exact ⟨Int.natCast_ne_zero.2 (by omega), by simpa [Literal.var] using high⟩
    · exact ⟨Int.neg_ne_zero.2 (Int.natCast_ne_zero.2 (by omega)),
        by simpa [Literal.var] using high⟩
  · rintro ⟨nonzero, inside⟩
    exact ⟨Literal.var l, ⟨Literal.var_pos nonzero, inside⟩, Int.natAbs_eq l⟩

/-- The listed literals are the candidates in another order. -/
theorem mem_toList {l : Literal} {n : Nat} :
    (l, n) ∈ (ofLiterals bound ls).toList ↔
      (l ≠ 0 ∧ Literal.var l < bound) ∧ ls.count l = n ∧ 0 < n := by
  have listed (k : Literal) : (∃ v ∈ (ofLiterals bound ls).vars, -(v : Int) = k) ∨
      (∃ v ∈ (ofLiterals bound ls).vars, (v : Int) = k) ↔ k ∈ (ofLiterals bound ls).candidates := by
    simp only [candidates, List.mem_flatMap, List.mem_pair, ← exists_or, ← and_or_left]
    exact exists_congr fun v => and_congr_right fun _ => or_comm.trans (or_congr eq_comm eq_comm)
  rw [← mem_candidates]
  simp only [toList, List.mem_filter, List.mem_map, List.mem_append, List.mem_reverse,
    Int.ofNat_eq_natCast, listed, Prod.mk.injEq, decide_eq_true_eq]
  constructor
  · rintro ⟨⟨k, among, rfl, rfl⟩, positive⟩
    obtain ⟨nonzero, inside⟩ := mem_candidates.1 among
    rw [count_ofLiterals nonzero inside] at positive ⊢
    exact ⟨among, rfl, positive⟩
  · rintro ⟨among, rfl, positive⟩
    obtain ⟨nonzero, inside⟩ := mem_candidates.1 among
    exact ⟨⟨l, among, rfl, count_ofLiterals nonzero inside⟩, positive⟩

theorem mem_pureLiterals {l : Literal} :
    l ∈ (ofLiterals bound ls).pureLiterals ↔
      (l ≠ 0 ∧ Literal.var l < bound) ∧ l ∈ ls ∧ -l ∉ ls := by
  rw [pureLiterals, List.mem_filter, mem_candidates]
  refine and_congr_right ?_
  rintro ⟨nonzero, inside⟩
  have complement : -l ≠ 0 := Int.neg_ne_zero.2 nonzero
  rw [count_ofLiterals nonzero inside, count_ofLiterals complement (by rwa [Literal.var_neg])]
  simp [List.count_eq_zero]

/-- The pure literals only depend on which literals occur. -/
theorem pureLiterals_congr {ms : List Literal} (same : ∀ l, l ∈ ls ↔ l ∈ ms) :
    (ofLiterals bound ls).pureLiterals = (ofLiterals bound ms).pureLiterals := by
  have candidates : (ofLiterals bound ls).candidates = (ofLiterals bound ms).candidates := by
    simp only [Tally.candidates, vars_ofLiterals]
  rw [pureLiterals, pureLiterals, candidates]
  apply List.filter_congr
  intro l hl
  obtain ⟨nonzero, inside⟩ := mem_candidates.1 hl
  have complement : -l ≠ 0 := Int.neg_ne_zero.2 nonzero
  have insideNeg : Literal.var (-l) < bound := by rwa [Literal.var_neg]
  rw [count_ofLiterals nonzero inside, count_ofLiterals nonzero inside,
    count_ofLiterals complement insideNeg, count_ofLiterals complement insideNeg,
    Bool.eq_iff_iff]
  simp [List.count_eq_zero, same]

theorem pairwise_pureLiterals :
    (ofLiterals bound ls).pureLiterals.Pairwise fun k l => Literal.var k ≠ Literal.var l := by
  have distinct : (ofLiterals bound ls).pureLiterals.Nodup := by
    refine List.Nodup.filter _ ?_
    rw [candidates, vars_ofLiterals, List.nodup_flatMap]
    constructor
    · intro v hv
      have := (List.mem_range'_1.1 hv).1
      have other : (v : Int) ≠ -(v : Int) := by omega
      simpa using other
    · refine List.Pairwise.imp ?_ List.pairwise_lt_range'
      intro v w less
      simp only [Function.onFun, List.disjoint_left, List.mem_cons, List.not_mem_nil, or_false]
      intro l hv hw
      have at_v : Literal.var l = v := by rcases hv with rfl | rfl <;> simp [Literal.var]
      have at_w : Literal.var l = w := by rcases hw with rfl | rfl <;> simp [Literal.var]
      omega
  refine distinct.imp_of_mem ?_
  intro k l hk hl other same
  rcases Literal.eq_or_eq_neg same with equal | opposite
  · exact other equal
  · have occurs := (mem_pureLiterals.1 hk).2.1
    exact (mem_pureLiterals.1 hl).2.2 (opposite ▸ occurs)

end Clausal.Tally

import Clausal.Proofs.Propagation.Closure
import Clausal.Proofs.Propagation.PureLiteral
import Mathlib.Data.Finset.Dedup
import Mathlib.Data.List.Forall2

/-!
Formulas that are written differently. Clauses can be reordered, and so can the literals of each
clause; more coarsely, two formulas can have the same clauses as sets of literals. Under the same
values the latter derive the same literals and have the same open and pure literals.
-/
namespace Clausal

/-- The clauses in another order, and the literals of each clause in another order. -/
def Reordered (clauses others : List Clause) : Prop :=
  ∃ moved, clauses.Perm moved ∧ List.Forall₂ List.Perm moved others

namespace Reordered

variable {cs ds : List Clause}

theorem map (h : Reordered cs ds) (change : Clause → Clause)
    (keeps : ∀ c d, c.Perm d → (change c).Perm (change d)) :
    Reordered (cs.map change) (ds.map change) := by
  obtain ⟨moved, perm, shuffled⟩ := h
  refine ⟨moved.map change, perm.map change, List.rel_map ?_ shuffled⟩
  intro c d same
  exact keeps c d same

theorem filter (h : Reordered cs ds) (keep : Clause → Bool)
    (keeps : ∀ c d, c.Perm d → keep c = keep d) : Reordered (cs.filter keep) (ds.filter keep) := by
  obtain ⟨moved, perm, shuffled⟩ := h
  refine ⟨moved.filter keep, perm.filter keep, List.rel_filter ?_ shuffled⟩
  intro c d same
  simp only [keeps c d same]

theorem flatten (h : Reordered cs ds) : cs.flatten.Perm ds.flatten := by
  obtain ⟨moved, perm, shuffled⟩ := h
  exact perm.flatten.trans (List.Perm.flatten_congr shuffled)

theorem exists_of_mem (h : Reordered cs ds) :
    (∀ c ∈ cs, ∃ d ∈ ds, c.Perm d) ∧ ∀ d ∈ ds, ∃ c ∈ cs, d.Perm c := by
  obtain ⟨moved, perm, shuffled⟩ := h
  simp only [perm.mem_iff]
  clear perm
  induction shuffled with
  | nil => simp
  | @cons c d _ _ same _ ih =>
      obtain ⟨left, right⟩ := ih
      constructor
      · intro e he
        rcases List.mem_cons.1 he with rfl | he
        · exact ⟨d, List.mem_cons_self, same⟩
        · obtain ⟨e', he', same'⟩ := left e he
          exact ⟨e', List.mem_cons_of_mem _ he', same'⟩
      · intro e he
        rcases List.mem_cons.1 he with rfl | he
        · exact ⟨c, List.mem_cons_self, same.symm⟩
        · obtain ⟨e', he', same'⟩ := right e he
          exact ⟨e', List.mem_cons_of_mem _ he', same'⟩

end Reordered

namespace Formula

/-- The clauses as a set of sets of literals. -/
def clauseSets (f : Formula) : Finset (Finset Literal) := (f.clauses.map List.toFinset).toFinset

/-- The same number of variables, and the same clauses as sets of literals. -/
structure SameClauses (f g : Formula) : Prop where
  count : f.numVariables = g.numVariables
  left : ∀ c ∈ f.clauses, ∃ d ∈ g.clauses, ∀ l, l ∈ c ↔ l ∈ d
  right : ∀ d ∈ g.clauses, ∃ c ∈ f.clauses, ∀ l, l ∈ d ↔ l ∈ c

variable {f g : Formula} {t u : Trail} {l : Literal}

theorem exists_of_sets {cs ds : List Clause}
    (h : (cs.map List.toFinset).toFinset = (ds.map List.toFinset).toFinset) {c : Clause}
    (hc : c ∈ cs) : ∃ d ∈ ds, ∀ l, l ∈ c ↔ l ∈ d := by
  have mem : c.toFinset ∈ (ds.map List.toFinset).toFinset := by
    rw [← h, List.mem_toFinset]
    exact List.mem_map_of_mem hc
  rw [List.mem_toFinset, List.mem_map] at mem
  obtain ⟨d, hd, same⟩ := mem
  refine ⟨d, hd, fun l => ?_⟩
  rw [← List.mem_toFinset, ← List.mem_toFinset, same]

theorem sameClauses_of_clauseSets (count : f.numVariables = g.numVariables)
    (h : f.clauseSets = g.clauseSets) : SameClauses f g :=
  ⟨count, fun _ => exists_of_sets h, fun _ => exists_of_sets h.symm⟩

theorem sameClauses_of_reordered (count : f.numVariables = g.numVariables)
    (h : Reordered f.clauses g.clauses) : SameClauses f g where
  count := count
  left c hc := by
    obtain ⟨d, hd, same⟩ := h.exists_of_mem.1 c hc
    exact ⟨d, hd, fun _ => same.mem_iff⟩
  right d hd := by
    obtain ⟨c, hc, same⟩ := h.exists_of_mem.2 d hd
    exact ⟨c, hc, fun _ => same.mem_iff⟩

namespace SameClauses

theorem symm (h : SameClauses f g) : SameClauses g f := ⟨h.count.symm, h.right, h.left⟩

theorem satisfiedBy_of (h : SameClauses f g) {α : Nat → Option Bool}
    (satisfied : f.satisfiedBy α = true) : g.satisfiedBy α = true := by
  refine satisfiedBy_iff.2 fun d hd => Clause.satisfiedBy_iff.2 ?_
  obtain ⟨c, hc, same⟩ := h.right d hd
  obtain ⟨l, hl, true_⟩ := Clause.satisfiedBy_iff.1 (satisfiedBy_iff.1 satisfied c hc)
  exact ⟨l, (same l).2 hl, true_⟩

theorem satisfiedBy_eq (h : SameClauses f g) (α : Nat → Option Bool) :
    f.satisfiedBy α = g.satisfiedBy α :=
  Bool.eq_iff_iff.2 ⟨h.satisfiedBy_of, h.symm.satisfiedBy_of⟩

theorem hasEmptyClause_of (h : SameClauses f g) (empty : f.hasEmptyClause = true) :
    g.hasEmptyClause = true := by
  obtain ⟨c, hc, none_⟩ := List.any_eq_true.1 empty
  obtain ⟨d, hd, same⟩ := h.left c hc
  refine List.any_eq_true.2 ⟨d, hd, ?_⟩
  rw [List.isEmpty_iff, List.eq_nil_iff_forall_not_mem] at none_ ⊢
  exact fun l hl => none_ l ((same l).2 hl)

theorem hasEmptyClause_eq (h : SameClauses f g) : f.hasEmptyClause = g.hasEmptyClause :=
  Bool.eq_iff_iff.2 ⟨h.hasEmptyClause_of, h.symm.hasEmptyClause_of⟩

theorem derives (h : SameClauses f g) (values : t.value = u.value)
    (derived : t.Derives f.clauses l) : u.Derives g.clauses l := by
  induction derived with
  | asserted asserted => exact .asserted (by rwa [Trail.Asserts, ← values])
  | @unit c l hc hl _ ih =>
      obtain ⟨d, hd, same⟩ := h.left c hc
      exact .unit hd ((same l).1 hl) fun k hk other => ih k ((same k).2 hk) other

theorem refutes (h : SameClauses f g) (values : t.value = u.value)
    (refuted : ∃ c ∈ f.clauses, ∀ l ∈ c, t.Derives f.clauses (-l)) :
    ∃ d ∈ g.clauses, ∀ l ∈ d, u.Derives g.clauses (-l) := by
  obtain ⟨c, hc, denied⟩ := refuted
  obtain ⟨d, hd, same⟩ := h.left c hc
  exact ⟨d, hd, fun l hl => h.derives values (denied l ((same l).2 hl))⟩

theorem mem_openOccurrences_of (h : SameClauses f g) (values : t.value = u.value)
    (open_ : l ∈ t.openOccurrences f.clauses) : l ∈ u.openOccurrences g.clauses := by
  rw [Trail.mem_openOccurrences] at open_ ⊢
  obtain ⟨c, hc, unsatisfied, hl, fresh⟩ := open_
  obtain ⟨d, hd, same⟩ := h.left c hc
  refine ⟨d, hd, fun k hk asserted => ?_, (same l).1 hl, values ▸ fresh⟩
  exact unsatisfied k ((same k).2 hk) (by rwa [Trail.Asserts, values])

theorem pureLiterals_eq (h : SameClauses f g) (coT : Trail.Coherent f.numVariables t)
    (coU : Trail.Coherent g.numVariables u) (values : t.value = u.value) :
    t.pureLiterals f.clauses = u.pureLiterals g.clauses := by
  have cells : t.values.size = u.values.size := by rw [coT.cells, coU.cells, h.count]
  rw [Trail.pureLiterals, Trail.pureLiterals, Trail.tally, Trail.tally, cells]
  exact Tally.pureLiterals_congr fun l =>
    ⟨h.mem_openOccurrences_of values, h.symm.mem_openOccurrences_of values.symm⟩

end SameClauses

end Formula

end Clausal

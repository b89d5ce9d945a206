import Clausal.Proofs.Branching.Polarity
import Clausal.Proofs.Reordering.Clauses

/-!
Branching choices on reordered clauses. Heuristics count occurrences and break ties by variable and
sign, so none of them sees an order. The one that takes the variables in order does not look at the
clauses at all.
-/
namespace Clausal

namespace Trail

variable {t u : Trail} {cs ds : List Clause}

theorem openLiterals_perm (values : t.value = u.value) {c d : Clause} (same : c.Perm d) :
    (t.openLiterals c).Perm (u.openLiterals d) := by
  rw [openLiterals, openLiterals, values]
  exact same.filter _

theorem satisfiedBy_perm {α : Nat → Option Bool} {c d : Clause} (same : c.Perm d) :
    c.satisfiedBy α = d.satisfiedBy α := by
  rw [Bool.eq_iff_iff, Clause.satisfiedBy_iff, Clause.satisfiedBy_iff]
  simp only [same.mem_iff]

theorem reordered_residuals (values : t.value = u.value) (h : Reordered cs ds) :
    Reordered ((cs.filter fun c => !c.satisfiedBy t.value).map t.openLiterals)
      ((ds.filter fun c => !c.satisfiedBy u.value).map u.openLiterals) := by
  have left : u.openLiterals = t.openLiterals := by
    funext c
    rw [openLiterals, openLiterals, values]
  rw [left, ← values]
  have kept := h.filter (fun c => !c.satisfiedBy t.value) fun c d same => by
    rw [satisfiedBy_perm same]
  exact kept.map _ fun c d same => openLiterals_perm rfl same

theorem tally_eq {n : Nat} (coT : Coherent n t) (coU : Coherent n u) {ls ms : List Literal}
    (h : ls.Perm ms) : t.tally ls = u.tally ms := by
  rw [tally, tally, coT.cells, coU.cells, Tally.ofLiterals_perm h]

theorem firstUnassigned_eq {n : Nat} (coT : Coherent n t) (coU : Coherent n u)
    (values : t.value = u.value) {v count : Nat} (last : v + count ≤ n + 1) :
    t.firstUnassigned v count = u.firstUnassigned v count := by
  induction count generalizing v with
  | zero => rfl
  | succ count ih =>
      rw [firstUnassigned, firstUnassigned, coT.lookup_eq (by omega), coU.lookup_eq (by omega),
        values, ih (by omega)]

end Trail

namespace Formula

open Trail

/-- How a heuristic finds its way through two formulas: on trails with the same values it makes the
same choice. -/
def ChoosesAlike (h : Heuristic) (f g : Formula) : Prop :=
  ∀ t u, Coherent f.numVariables t → Coherent g.numVariables u → t.value = u.value →
    h.choose f t = h.choose g u

variable {f g : Formula} {t u : Trail}

theorem vars_eq (count : f.numVariables = g.numVariables) : f.vars = g.vars := by
  rw [vars, vars, count]

theorem openVars_eq (count : f.numVariables = g.numVariables) (coT : Coherent f.numVariables t)
    (coU : Coherent g.numVariables u) (values : t.value = u.value) :
    f.openVars t = g.openVars u := by
  rw [openVars, openVars, coT.covers, coU.covers, vars_eq count, values]

theorem polarityScore_eq (h : Reordered f.clauses g.clauses) (v : Nat) :
    f.polarityScore v = g.polarityScore v := by
  have same : f.literals.Perm g.literals := h.flatten
  rw [polarityScore_eq_balance, polarityScore_eq_balance, Literal.balance, Literal.balance,
    same.count_eq, same.count_eq]

end Formula

namespace Heuristic

open Trail

variable {f g : Formula} {t u : Trail}

theorem chooseOrdered_eq (count : f.numVariables = g.numVariables)
    (coT : Coherent f.numVariables t) (coU : Coherent g.numVariables u)
    (values : t.value = u.value) : chooseOrdered f t = chooseOrdered g u := by
  rw [← count] at coU
  rw [chooseOrdered, chooseOrdered, ← count, firstUnassigned_eq coT coU values (by omega)]

section Reordered

variable (count : f.numVariables = g.numVariables) (reordered : Reordered f.clauses g.clauses)
  (coT : Coherent f.numVariables t) (coU : Coherent g.numVariables u) (values : t.value = u.value)

include count reordered coT coU values

theorem tally_openOccurrences_eq :
    t.tally (t.openOccurrences f.clauses) = u.tally (u.openOccurrences g.clauses) :=
  tally_eq coT (count ▸ coU) (reordered_residuals values reordered).flatten

theorem chooseMostLiteral_eq : chooseMostLiteral f t = chooseMostLiteral g u := by
  rw [chooseMostLiteral, chooseMostLiteral, coT.occurrences_eq, coU.occurrences_eq,
    tally_openOccurrences_eq count reordered coT coU values, chooseOrdered_eq count coT coU values]

theorem chooseMostVariable_eq : chooseMostVariable f t = chooseMostVariable g u := by
  rw [chooseMostVariable, chooseMostVariable, coT.occurrences_eq, coU.occurrences_eq,
    tally_openOccurrences_eq count reordered coT coU values, chooseOrdered_eq count coT coU values]

theorem choosePolarity_eq : choosePolarity f t = choosePolarity g u := by
  have scores : f.polarityScore = g.polarityScore := funext (Formula.polarityScore_eq reordered)
  rw [choosePolarity, choosePolarity, chooseMostVariable_eq count reordered coT coU values, scores]

theorem chooseMinClauseLength_eq : chooseMinClauseLength f t = chooseMinClauseLength g u := by
  have left := reordered_residuals values reordered
  have tallies (k : Nat) := tally_eq coT (count ▸ coU)
    (left.filter (·.length == k) fun c d same => by rw [same.length_eq]).flatten
  rw [chooseMinClauseLength, chooseMinClauseLength, Formula.openVars_eq count coT coU values,
    coT.residuals_eq fun c hc l hl => Formula.var_le_of_mem hc hl,
    coU.residuals_eq fun c hc l hl => Formula.var_le_of_mem hc hl]
  simp only [tallies, tally_eq coT (count ▸ coU) left.flatten]

end Reordered

theorem choosesAlike_order (count : f.numVariables = g.numVariables) :
    f.ChoosesAlike .order g :=
  fun _ _ coT coU values => chooseOrdered_eq count coT coU values

theorem choosesAlike_of_reordered (h : Heuristic) (count : f.numVariables = g.numVariables)
    (reordered : Reordered f.clauses g.clauses) : f.ChoosesAlike h g := by
  intro t u coT coU values
  cases h with
  | order => exact choosesAlike_order count t u coT coU values
  | mostLiteral => exact chooseMostLiteral_eq count reordered coT coU values
  | mostVariable => exact chooseMostVariable_eq count reordered coT coU values
  | polarity => exact choosePolarity_eq count reordered coT coU values
  | minClauseLength => exact chooseMinClauseLength_eq count reordered coT coU values

end Heuristic

end Clausal

import Clausal.Trail

/-!
How a trail grows. Each assignment takes one free cell of the table, and undoing it restores the
trail it was made on; so a trail that has grown can be cut back to any earlier length exactly, and
it cannot grow more often than it has free cells. Neither fact needs the table and the log to agree.
-/
namespace Clausal.Trail

/-- The number of cells without a value. -/
def free (t : Trail) : Nat := t.values.countP (·.isNone)

/-- `Grows t u`: `u` is `t` after some successful assignments. -/
inductive Grows (t : Trail) : Trail → Prop where
  | refl : Grows t t
  | assign {u w : Trail} {v : Int} {b : Bool} {kind : Entry.Kind} :
      Grows t u → u.assign v b kind = .ok w → Grows t w

theorem values_getElem?_of_assign {t u : Trail} {v : Int} {b : Bool} {kind : Entry.Kind}
    (h : t.assign v b kind = .ok u) :
    t.values[v.toNat]? = some none ∧
      u = { t with
        values := t.values.setIfInBounds v.toNat (some b)
        entries := ⟨v.toNat, b, kind⟩ :: t.entries
        level := if kind = .decision then t.level + 1 else t.level } := by
  rw [assign] at h
  split at h
  · split at h
    · cases h
    · cases h
    · rename_i cell
      cases h
      exact ⟨cell, rfl⟩
  · cases h

theorem size_of_assign {t u : Trail} {v : Int} {b : Bool} {kind : Entry.Kind}
    (h : t.assign v b kind = .ok u) : u.size = t.size + 1 := by
  obtain ⟨_, rfl⟩ := values_getElem?_of_assign h
  rfl

theorem undo_of_assign {t u : Trail} {v : Int} {b : Bool} {kind : Entry.Kind}
    (h : t.assign v b kind = .ok u) : u.undo = t := by
  obtain ⟨cell, rfl⟩ := values_getElem?_of_assign h
  obtain ⟨bound, same⟩ := Array.getElem?_eq_some_iff.1 cell
  have restored : (t.values.setIfInBounds v.toNat (some b)).setIfInBounds v.toNat none = t.values := by
    rw [Array.setIfInBounds_setIfInBounds, Array.setIfInBounds_def, dif_pos bound, ← same,
      Array.set_getElem_self]
  cases t
  cases kind <;> simp_all [undo]

theorem free_of_assign {t u : Trail} {v : Int} {b : Bool} {kind : Entry.Kind}
    (h : t.assign v b kind = .ok u) : u.free + 1 = t.free := by
  obtain ⟨cell, rfl⟩ := values_getElem?_of_assign h
  obtain ⟨bound, same⟩ := Array.getElem?_eq_some_iff.1 cell
  have positive : 0 < t.values.countP (·.isNone) :=
    Array.countP_pos_iff.2 ⟨none, by rw [← same]; exact Array.getElem_mem bound, rfl⟩
  simp only [free]
  rw [Array.setIfInBounds_def, dif_pos bound, Array.countP_set, same]
  simp only [Option.isNone_none, Option.isNone_some, if_true, Bool.false_eq_true, if_false]
  omega

theorem undoMany_add (m n : Nat) (t : Trail) :
    undoMany (m + n) t = undoMany n (undoMany m t) := by
  induction m generalizing t with
  | zero => rw [Nat.zero_add, undoMany]
  | succ m ih => rw [Nat.succ_add, undoMany, ih, undoMany]

theorem size_undo (t : Trail) : t.undo.size = t.size - 1 := by
  rw [undo]
  split
  · rename_i h
    simp [size, h]
  · rename_i h
    simp [size, h]

theorem size_undoMany (n : Nat) (t : Trail) : (undoMany n t).size = t.size - n := by
  induction n generalizing t with
  | zero => rfl
  | succ n ih => rw [undoMany, ih, size_undo]; omega

theorem size_rewind {t : Trail} {k : Nat} (h : k ≤ t.size) : (t.rewind k).size = k := by
  rw [rewind, size_undoMany]
  omega

theorem rewind_size (t : Trail) : t.rewind t.size = t := by
  rw [rewind, Nat.sub_self, undoMany]

/-- Cutting back in two steps is cutting back in one. -/
theorem rewind_rewind {t : Trail} {j k : Nat} (hjk : j ≤ k) (hk : k ≤ t.size) :
    (t.rewind k).rewind j = t.rewind j := by
  rw [rewind, size_rewind hk, rewind, ← undoMany_add, rewind]
  congr 1
  omega

theorem rewind_of_assign {t u : Trail} {v : Int} {b : Bool} {kind : Entry.Kind} {k : Nat}
    (h : t.assign v b kind = .ok u) (hk : k ≤ t.size) : u.rewind k = t.rewind k := by
  have split : u.size - k = 1 + (t.size - k) := by rw [size_of_assign h]; omega
  rw [rewind, split, undoMany_add, undoMany, undoMany, undo_of_assign h, rewind]

namespace Grows

theorem trans {t u w : Trail} (tu : Grows t u) (uw : Grows u w) : Grows t w := by
  induction uw with
  | refl => exact tu
  | assign _ step ih => exact .assign ih step

theorem size_le {t u : Trail} (h : Grows t u) : t.size ≤ u.size := by
  induction h with
  | refl => exact Nat.le_refl _
  | assign _ step ih => rw [size_of_assign step]; omega

/-- Each new entry takes one free cell. -/
theorem free_add_size {t u : Trail} (h : Grows t u) : u.free + u.size = t.free + t.size := by
  induction h with
  | refl => rfl
  | assign _ step ih =>
    have := free_of_assign step
    have := size_of_assign step
    omega

theorem rewind_eq {t u : Trail} {k : Nat} (h : Grows t u) (hk : k ≤ t.size) :
    u.rewind k = t.rewind k := by
  induction h with
  | refl => rfl
  | assign grown step ih => rw [rewind_of_assign step (Nat.le_trans hk grown.size_le), ih]

theorem free_le {t u : Trail} (h : Grows t u) : u.free ≤ t.free := by
  have := h.free_add_size
  have := h.size_le
  omega

theorem free_lt {t u : Trail} (h : Grows t u) (longer : t.size < u.size) : u.free < t.free := by
  have := h.free_add_size
  omega

end Grows

theorem backtrackTo_eq_ok {t u : Trail} {token : Nat} (h : t.backtrackTo token = .ok u) :
    token ≤ t.size ∧ u = t.rewind token := by
  rw [backtrackTo] at h
  split at h
  · rename_i bounds
    cases h
    exact ⟨by omega, rfl⟩
  · cases h

end Clausal.Trail

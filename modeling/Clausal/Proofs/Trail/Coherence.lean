import Clausal.Heuristic
import Clausal.Trail.Growth
import Mathlib.Data.List.Perm.Subperm

/-!
The log, the table and the decision counter of a trail tell one story. They do so on the empty
trail and each successful assignment keeps it that way, so every trail that has grown from an empty
one can be read off its log alone.
-/
namespace Clausal.Trail

/-- A trail over `n` variables whose three records agree. -/
structure Coherent (n : Nat) (t : Trail) : Prop where
  numVariables : t.numVariables = n
  cells : t.values.size = n + 1
  distinct : (t.entries.map Entry.var).Nodup
  inRange : ∀ e ∈ t.entries, 1 ≤ e.var ∧ e.var ≤ n
  value_iff : ∀ v b, t.value v = some b ↔ ∃ e ∈ t.entries, e.var = v ∧ e.value = b
  level : t.level = t.entries.countP fun e => e.kind = .decision

theorem bounds_of_assign {t u : Trail} {v : Int} {b : Bool} {kind : Entry.Kind}
    (h : t.assign v b kind = .ok u) : 1 ≤ v ∧ v ≤ t.numVariables := by
  rw [assign] at h
  split at h
  · assumption
  · cases h

theorem value_eq_none_of_assign {t u : Trail} {v : Int} {b : Bool} {kind : Entry.Kind}
    (h : t.assign v b kind = .ok u) : t.value v.toNat = none := by
  rw [value, (values_getElem?_of_assign h).1]
  rfl

theorem value_of_assign {t u : Trail} {v : Int} {b : Bool} {kind : Entry.Kind}
    (h : t.assign v b kind = .ok u) (w : Nat) :
    u.value w = if w = v.toNat then some b else t.value w := by
  obtain ⟨cell, rfl⟩ := values_getElem?_of_assign h
  obtain ⟨bound, _⟩ := Array.getElem?_eq_some_iff.1 cell
  by_cases same : w = v.toNat
  · simp [value, same, bound]
  · simp [value, same, Ne.symm same]

theorem value_eq_of_assign {s t u w : Trail} {v : Int} {b : Bool} {kind : Entry.Kind}
    (values : s.value = t.value) (hs : s.assign v b kind = .ok u) (ht : t.assign v b kind = .ok w) :
    u.value = w.value := by
  funext x
  rw [value_of_assign hs, value_of_assign ht, values]

theorem value_eq_some_of_assign {t u : Trail} {v : Int} {b c : Bool} {kind : Entry.Kind} {w : Nat}
    (h : t.assign v b kind = .ok u) (old : t.value w = some c) : u.value w = some c := by
  have other : w ≠ v.toNat := by
    intro same
    rw [same, value_eq_none_of_assign h] at old
    cases old
  rw [value_of_assign h, if_neg other, old]

theorem chronological_of_assign {t u : Trail} {v : Int} {b : Bool} {kind : Entry.Kind}
    (h : t.assign v b kind = .ok u) :
    u.chronological = t.chronological ++ [⟨v.toNat, b, kind⟩] := by
  rw [(values_getElem?_of_assign h).2]
  exact List.reverse_cons

theorem length_chronological (t : Trail) : t.chronological.length = t.size :=
  List.length_reverse

namespace Grows

variable {s t u : Trail}

theorem value_eq_some (h : Grows t u) {v : Nat} {b : Bool} (old : t.value v = some b) :
    u.value v = some b := by
  induction h with
  | refl => exact old
  | assign _ step ih => exact value_eq_some_of_assign step ih

theorem value_eq_none (h : Grows t u) {v : Nat} (later : u.value v = none) : t.value v = none := by
  cases old : t.value v with
  | none => rfl
  | some b =>
      rw [h.value_eq_some old] at later
      cases later

theorem entries_suffix (h : Grows t u) : t.entries <:+ u.entries := by
  induction h with
  | refl => exact List.suffix_refl _
  | assign _ step ih =>
      rw [(values_getElem?_of_assign step).2]
      exact ih.trans (List.suffix_cons _ _)

theorem chronological_prefix (h : Grows t u) : t.chronological <+: u.chronological :=
  List.reverse_prefix.2 h.entries_suffix

theorem take_chronological (h : Grows t u) : u.chronological.take t.size = t.chronological := by
  rw [← length_chronological t]
  exact (List.prefix_iff_eq_take.1 h.chronological_prefix).symm

theorem exists_added (h : Grows t u) :
    ∃ added, u.chronological = t.chronological ++ added ∧ u.size = t.size + added.length := by
  obtain ⟨added, entries⟩ := h.chronological_prefix
  refine ⟨added, entries.symm, ?_⟩
  rw [← length_chronological, ← entries, List.length_append, length_chronological]

theorem eq_of_size (h : Grows t u) (same : u.size = t.size) : u = t := by
  cases h with
  | refl => rfl
  | assign grown step =>
      have := grown.size_le
      have := size_of_assign step
      omega

end Grows

theorem value_empty (n : Int) (v : Nat) : (empty n).value v = none := by
  simp only [value, empty, Array.getElem?_replicate]
  split <;> rfl

theorem coherent_empty (n : Nat) : Coherent n (empty n) where
  numVariables := rfl
  cells := by simp [empty]
  distinct := List.nodup_nil
  inRange := by simp [empty]
  value_iff v b := by
    rw [value_empty]
    simp [empty]
  level := rfl

namespace Coherent

variable {n : Nat} {t u : Trail}

theorem assign {v : Int} {b : Bool} {kind : Entry.Kind} (co : Coherent n t)
    (h : t.assign v b kind = .ok u) : Coherent n u := by
  have bounds := bounds_of_assign h
  have fresh := value_eq_none_of_assign h
  have values := value_of_assign h
  have cells : u.values.size = t.values.size := by
    rw [(values_getElem?_of_assign h).2]
    simp
  obtain ⟨_, rfl⟩ := values_getElem?_of_assign h
  rw [co.numVariables] at bounds
  refine ⟨co.numVariables, cells.trans co.cells, ?_, ?_, ?_, ?_⟩
  · refine List.nodup_cons.2 ⟨?_, co.distinct⟩
    intro old
    obtain ⟨e, he, same⟩ := List.mem_map.1 old
    have held := (co.value_iff v.toNat e.value).2 ⟨e, he, same, rfl⟩
    rw [fresh] at held
    cases held
  · intro e he
    rcases List.mem_cons.1 he with rfl | he
    · dsimp only
      omega
    · exact co.inRange e he
  · intro w c
    rw [values]
    by_cases same : w = v.toNat
    · have absent : ¬∃ e ∈ t.entries, e.var = w ∧ e.value = c := by
        rw [← co.value_iff, same, fresh]
        simp
      simp only [List.mem_cons, exists_eq_or_imp, absent, or_false]
      simp [same]
    · simp only [if_neg same, List.mem_cons, exists_eq_or_imp, Ne.symm same, false_and, false_or]
      exact co.value_iff w c
  · cases kind <;> simp [co.level]

theorem grows (co : Coherent n t) (h : Grows t u) : Coherent n u := by
  induction h with
  | refl => exact co
  | assign _ step ih => exact ih.assign step

theorem value_zero (co : Coherent n t) : t.value 0 = none := by
  cases held : t.value 0 with
  | none => rfl
  | some b =>
      obtain ⟨e, he, zero, _⟩ := (co.value_iff 0 b).1 held
      have := co.inRange e he
      omega

theorem lookup_eq (co : Coherent n t) {v : Nat} (h : v ≤ n) : t.lookup v = .ok (t.value v) := by
  have bound : v < t.values.size := by rw [co.cells]; omega
  simp [lookup, value, Array.getElem?_eq_getElem bound]

theorem literalValue_eq (co : Coherent n t) {l : Literal} (h : Literal.var l ≤ n) :
    t.literalValue l = .ok ((t.value (Literal.var l)).map (Literal.under l)) := by
  rw [literalValue, co.lookup_eq h]

theorem covers (co : Coherent n t) : t.covers n = true := by
  simp [Trail.covers, co.cells]

theorem exists_assign (co : Coherent n t) {v : Nat} (low : 1 ≤ v) (high : v ≤ n)
    (fresh : t.value v = none) (b : Bool) (kind : Entry.Kind) :
    ∃ u, t.assign v b kind = .ok u := by
  have bound : v < t.values.size := by rw [co.cells]; omega
  have inside : (1 : Int) ≤ v ∧ (v : Int) ≤ t.numVariables := by rw [co.numVariables]; omega
  have cell : t.values[v]? = some none := by
    rw [value, Array.getElem?_eq_getElem bound, Option.join_some] at fresh
    rw [Array.getElem?_eq_getElem bound, fresh]
  rw [Trail.assign, if_pos inside, Int.toNat_natCast, cell]
  exact ⟨_, rfl⟩

theorem mem_vars_iff (co : Coherent n t) (v : Nat) :
    v ∈ t.entries.map Entry.var ↔ t.value v ≠ none := by
  rw [Option.ne_none_iff_exists', List.mem_map]
  constructor
  · rintro ⟨e, he, rfl⟩
    exact ⟨e.value, (co.value_iff e.var e.value).2 ⟨e, he, rfl, rfl⟩⟩
  · rintro ⟨b, held⟩
    obtain ⟨e, he, same, _⟩ := (co.value_iff v b).1 held
    exact ⟨e, he, same⟩

/-- What has been added to a trail gives values to variables that were open before. -/
theorem value_of_added (coT : Coherent n t) (coU : Coherent n u) {added : List Entry}
    (entries : u.chronological = t.chronological ++ added) {e : Entry} (he : e ∈ added) :
    t.value e.var = none ∧ u.value e.var = some e.value := by
  have distinct : (u.chronological.map Entry.var).Nodup :=
    ((List.reverse_perm u.entries).map Entry.var).nodup_iff.2 coU.distinct
  have mem : e ∈ u.entries := by
    rw [← List.mem_reverse, ← chronological, entries]
    exact List.mem_append_right _ he
  rw [entries, List.map_append, List.nodup_append] at distinct
  refine ⟨?_, (coU.value_iff e.var e.value).2 ⟨e, mem, rfl, rfl⟩⟩
  by_contra assigned
  have old := (coT.mem_vars_iff e.var).2 assigned
  rw [← List.mem_reverse, ← List.map_reverse] at old
  exact distinct.2.2 e.var old e.var (List.mem_map_of_mem he) rfl

theorem vars_subperm (co : Coherent n t) :
    (t.entries.map Entry.var).Subperm (List.range' 1 n) := by
  refine List.subperm_of_subset co.distinct fun v hv => ?_
  obtain ⟨e, he, rfl⟩ := List.mem_map.1 hv
  have := co.inRange e he
  rw [List.mem_range'_1]
  omega

theorem size_le (co : Coherent n t) : t.size ≤ n := by
  simpa [size] using co.vars_subperm.length_le

/-- Counting entries is enough to know that every variable has a value. -/
theorem isComplete_iff (co : Coherent n t) :
    t.isComplete = true ↔ ∀ v, 1 ≤ v → v ≤ n → t.value v ≠ none := by
  have sub := co.vars_subperm
  simp only [isComplete, co.numVariables, beq_iff_eq, size]
  constructor
  · intro full v low high
    rw [← co.mem_vars_iff]
    have perm := sub.perm_of_length_le (by simp; omega)
    exact perm.mem_iff.2 (List.mem_range'_1.2 (by omega))
  · intro all
    have covered : List.range' 1 n ⊆ t.entries.map Entry.var := by
      intro v hv
      rw [List.mem_range'_1] at hv
      exact (co.mem_vars_iff v).2 (all v hv.1 (by omega))
    have upper := sub.length_le
    have lower := (List.subperm_of_subset List.nodup_range' covered).length_le
    simp only [List.length_map, List.length_range'] at upper lower
    omega

theorem isComplete_eq (coT : Coherent n t) (coU : Coherent n u) (values : t.value = u.value) :
    t.isComplete = u.isComplete := by
  rw [Bool.eq_iff_iff, coT.isComplete_iff, coU.isComplete_iff, values]

theorem size_eq (coT : Coherent n t) (coU : Coherent n u) (values : t.value = u.value) :
    t.size = u.size := by
  have perm : (t.entries.map Entry.var).Perm (u.entries.map Entry.var) := by
    rw [List.perm_ext_iff_of_nodup coT.distinct coU.distinct]
    intro v
    rw [coT.mem_vars_iff, coU.mem_vars_iff, values]
  simpa [size] using perm.length_eq

end Coherent

end Clausal.Trail

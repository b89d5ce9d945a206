import Clausal.Benchmark.Record

/-!
What names announce and summaries count. The two prefixes of names exclude each other, every record
without an error is counted under its verdict, and a summary is clean exactly if nothing is wrong
with any record.
-/
namespace Clausal.Benchmark

variable {path : Text} {records : List Record}

theorem expectedVerdict_eq_unsatisfiable :
    expectedVerdict path = some .unsatisfiable ↔
      Text.ofString "uuf" <+: lowered (baseName path) := by
  rw [expectedVerdict, ← List.isPrefixOf_iff_prefix]
  split
  · rename_i both
    exact iff_of_true rfl both
  · rename_i other
    split <;> simp [other]

theorem expectedVerdict_eq_satisfiable :
    expectedVerdict path = some .satisfiable ↔
      Text.ofString "uf" <+: lowered (baseName path) := by
  have exclusive {name : Text} (two : Text.ofString "uuf" <+: name)
      (one : Text.ofString "uf" <+: name) : False := by
    obtain ⟨rest, rfl⟩ := two
    obtain ⟨rest, same⟩ := one
    cases same
  rw [expectedVerdict, ← List.isPrefixOf_iff_prefix]
  split
  · rename_i both
    refine iff_of_false nofun fun single => ?_
    exact exclusive (List.isPrefixOf_iff_prefix.1 both) (List.isPrefixOf_iff_prefix.1 single)
  · split
    · rename_i single
      exact iff_of_true rfl single
    · rename_i neither
      exact iff_of_false nofun neither

theorem files_eq (judged : ∀ r ∈ records, r.error = none →
      r.verdict = some (Text.ofString Verdict.satisfiable.name) ∨
        r.verdict = some (Text.ofString Verdict.unsatisfiable.name)) :
    (Summary.ofRecords records).files =
      (Summary.ofRecords records).sat + (Summary.ofRecords records).unsat +
        (Summary.ofRecords records).errors := by
  let solved := records.filter fun r => r.error.isNone
  have different : Text.ofString Verdict.satisfiable.name ≠ Verdict.unsatisfiable.name := by decide
  let sat (r : Record) : Bool := r.verdict == some (Text.ofString Verdict.satisfiable.name)
  have others : solved.countP (fun r => ¬sat r = true) = (Summary.ofRecords records).unsat := by
    refine List.countP_congr fun r hr => ?_
    obtain ⟨mem, fine⟩ := List.mem_filter.1 hr
    rcases judged r mem (Option.isNone_iff_eq_none.1 fine) with satisfiable | unsatisfiable
    · simp [sat, satisfiable, different]
    · simp [sat, unsatisfiable, different.symm]
  have split : solved.length =
      (Summary.ofRecords records).sat + (Summary.ofRecords records).unsat := by
    rw [← others]
    exact List.length_eq_countP_add_countP _
  have fewer : solved.length ≤ records.length := List.length_filter_le _ records
  rw [← split]
  exact (Nat.add_sub_of_le fewer).symm

theorem isClean_iff :
    (Summary.ofRecords records).isClean = true ↔
      ∀ r ∈ records, r.error = none ∧ r.isMismatch = false := by
  let solved := records.filter fun r => r.error.isNone
  have fewer : solved.length ≤ records.length := List.length_filter_le _ records
  have errors : (Summary.ofRecords records).errors = 0 ↔ ∀ r ∈ records, r.error = none := by
    calc
      _ ↔ solved.length = records.length := by
        change records.length - solved.length = 0 ↔ _
        omega
      _ ↔ _ := by simp [solved, List.length_filter_eq_length_iff]
  have mismatches : (Summary.ofRecords records).mismatches = 0 ↔
      ∀ r ∈ solved, r.isMismatch = false := by
    simp [Summary.ofRecords, List.countP_eq_zero, solved]
  rw [Summary.isClean, Bool.and_eq_true, beq_iff_eq, beq_iff_eq, errors, mismatches]
  constructor
  · rintro ⟨fine, agreed⟩ r hr
    exact ⟨fine r hr, agreed r (List.mem_filter.2 ⟨hr, Option.isNone_iff_eq_none.2 (fine r hr)⟩)⟩
  · intro clean
    exact ⟨fun r hr => (clean r hr).1, fun r hr => (clean r (List.mem_filter.1 hr).1).2⟩

end Clausal.Benchmark

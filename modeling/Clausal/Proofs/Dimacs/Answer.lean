import Clausal.Dimacs.Answer
import Clausal.Proofs.Dimacs.Printer
import Clausal.Proofs.Solver

/-!
Answers, line by line. The verdict stands on the first line and a model on the lines behind it, and
put together again, the words of those lines are the literals of the model and a 0, however wide the
lines are. An answer of the solver can always be written: there is no trail over so many variables
that one of them has too many digits.
-/
namespace Clausal

theorem flatten_chunks {α : Type} {width : Nat} (h : 0 < width) (xs : List α) :
    (chunks width xs).flatten = xs := by
  induction xs using chunks.induct width with
  | case1 xs some_ ih =>
      rw [chunks, if_pos some_, List.flatten_cons, ih, List.take_append_drop]
  | case2 xs none_ =>
      have empty : xs = [] := by
        by_contra nonempty
        exact none_ ⟨h, nonempty⟩
      rw [chunks, if_neg none_, empty, List.flatten_nil]

theorem mem_of_mem_chunks {α : Type} {width : Nat} {xs stretch : List α} {x : α}
    (h : stretch ∈ chunks width xs) (hx : x ∈ stretch) : x ∈ xs := by
  by_cases room : 0 < width
  · rw [← flatten_chunks room xs]
    exact List.mem_flatten.2 ⟨stretch, h, hx⟩
  · rw [chunks, if_neg fun some_ => room some_.1] at h
    cases h

theorem toLiterals_completion (f : Formula) (t : Trail) :
    (f.completion t).toLiterals =
      f.vars.map fun v => Literal.ofVar v ((t.value v).getD true) := by
  have ascending : (f.completion t).Pairwise fun a b => decide (a.1 ≤ b.1) = true := by
    rw [Formula.completion, List.pairwise_map]
    refine List.Pairwise.imp ?_ (List.pairwise_lt_range' 1)
    intro v w before
    exact decide_eq_true (Int.ofNat_le.2 (Nat.le_of_lt before))
  rw [Assignment.toLiterals, List.mergeSort_of_pairwise ascending, Formula.completion, List.map_map]
  rfl

namespace Formula

variable {f : Formula} {config : Config} {s : Solution}

/-- No literal of a completed trail is larger than the variable count. -/
theorem isSayable_completion (room : f.numVariables < 10 ^ Text.maxDigits) (t : Trail)
    (stats : Stats) : Solution.isSayable ⟨.satisfiable, some (f.completion t), stats⟩ = true := by
  have literals : Solution.toLiterals ⟨.satisfiable, some (f.completion t), stats⟩ = _ :=
    toLiterals_completion f t
  rw [Solution.isSayable, literals, List.all_eq_true, List.forall_mem_map]
  intro v hv
  have size : (Literal.ofVar v ((t.value v).getD true)).natAbs = v := Literal.var_ofVar v _
  rw [Text.isWritable_iff, size]
  exact Nat.lt_of_le_of_lt (mem_vars.1 hv).2 room

theorem isSayable_of_solve (h : f.solve config = .ok s) : s.isSayable = true := by
  have searchable := isSearchable_of_solve h
  obtain ⟨stats, ⟨refuted, _⟩ | ⟨t, found, _, satisfied⟩⟩ := solve_spec searchable config
  · cases h.symm.trans refuted
    rfl
  · cases h.symm.trans found
    rcases searchable with empty | room
    · have model := holds_of_satisfiedBy satisfied
      rw [not_holds_of_hasEmptyClause empty] at model
      cases model
    · rw [Trail.maxCells] at room
      have digits : 10 ^ 19 ≤ 10 ^ Text.maxDigits := Nat.pow_le_pow_right (by decide) (by decide)
      exact isSayable_completion (Nat.lt_of_lt_of_le (by omega) digits) t stats

end Formula

namespace Dimacs

variable {s : Solution} {width : Option Int} {line : Text}

/-- The words behind the marks of the value lines. -/
def valueWords (lines : List Text) : List Text :=
  (lines.filter (startsWith 'v')).flatMap fun line => (Text.words line).tail

theorem startsWith_joinWords {word : Text} (h : IsWord word) (mark : Char) (words : List Text) :
    startsWith mark (joinWords (word :: words)) = startsWith mark word := by
  rw [startsWith, head?_joinWords h, startsWith]

theorem modelWords_completion (f : Formula) (t : Trail) (stats : Stats) :
    modelWords ⟨.satisfiable, some (f.completion t), stats⟩ =
      (f.vars.map fun v => integerWord (Literal.ofVar v ((t.value v).getD true))) ++
        [integerWord 0] := by
  have literals : Solution.toLiterals ⟨.satisfiable, some (f.completion t), stats⟩ = _ :=
    toLiterals_completion f t
  rw [modelWords, literals, List.map_append, List.map_map]
  rfl

theorem isWord_of_mem_valueLine {k : Nat} {words : List Text}
    (h : words ∈ chunks k (modelWords s)) : ∀ w ∈ Text.ofString "v" :: words, IsWord w := by
  refine List.forall_mem_cons.2 ⟨⟨nofun, by decide⟩, fun w hw => ?_⟩
  exact isWord_of_mem_integers w (mem_of_mem_chunks h hw)

/-- Behind their marks, the value lines are the stretches of the words of the model. -/
theorem map_valueLines (s : Solution) (width : Option Int) :
    ((valueLines s width).map fun line => (Text.words line).tail) =
      chunks (lineWidth width (modelWords s).length) (modelWords s) := by
  rw [valueLines, List.map_map]
  refine (List.map_congr_left fun words hwords => ?_).trans (List.map_id _)
  rw [Function.comp_apply, words_joinWords (isWord_of_mem_valueLine hwords)]
  rfl

/-- The value lines put together hold the words of the model, if they have room for any. -/
theorem flatMap_valueLines (room : 0 < lineWidth width (modelWords s).length) :
    ((valueLines s width).flatMap fun line => (Text.words line).tail) = modelWords s := by
  rw [List.flatMap_def, map_valueLines, flatten_chunks room]

theorem startsWith_valueLine (h : line ∈ valueLines s width) : startsWith 'v' line = true := by
  obtain ⟨words, hwords, rfl⟩ := List.mem_map.1 h
  rw [startsWith_joinWords (isWord_of_mem_valueLine hwords _ List.mem_cons_self)]
  rfl

/-- All words of the model are found, whatever unmarked lines stand around the value lines. -/
theorem valueWords_of_valueLines (before after : List Text)
    (room : 0 < lineWidth width (modelWords s).length)
    (unmarked : ∀ line ∈ before ++ after, startsWith 'v' line = false) :
    valueWords (before ++ valueLines s width ++ after) = modelWords s := by
  have none_ (lines : List Text) (h : ∀ line ∈ lines, line ∈ before ++ after) :
      lines.filter (startsWith 'v') = [] :=
    List.filter_eq_nil_iff.2 fun line hline => by simp [unmarked line (h line hline)]
  have all : (valueLines s width).filter (startsWith 'v') = valueLines s width :=
    List.filter_eq_self.2 fun line => startsWith_valueLine
  rw [valueWords, List.filter_append, List.filter_append,
    none_ before fun _ => List.mem_append_left after, all,
    none_ after fun _ => List.mem_append_right before, List.nil_append, List.append_nil,
    flatMap_valueLines room]

theorem isLineEnd_of_mem_answerLines {c : CodePoint} (h : line ∈ answerLines s width)
    (hc : c ∈ line) : Text.isLineEnd c = false := by
  have verdicts : ∀ verdict ∈ ["s SATISFIABLE", "s UNSATISFIABLE"],
      ∀ c ∈ Text.ofString verdict, Text.isLineEnd c = false := by decide
  rw [answerLines] at h
  split at h
  · cases List.mem_singleton.1 h
    exact verdicts "s UNSATISFIABLE" (by simp) c hc
  · rcases List.mem_cons.1 h with rfl | value
    · exact verdicts "s SATISFIABLE" (by simp) c hc
    · obtain ⟨words, hwords, rfl⟩ := List.mem_map.1 value
      exact isLineEnd_of_mem_joinWords (isWord_of_mem_valueLine hwords) hc

/-- Every line of an answer is closed by a line feed, if the last one is. -/
theorem renderAnswer_newline (s : Solution) (width : Option Int) :
    renderAnswer s width ++ [.char '\n'] = (answerLines s width).flatMap (· ++ [.char '\n']) := by
  have close (line : Text) (lines : List Text) :
      List.intercalate [.char '\n'] (line :: lines) ++ [.char '\n'] =
        (line :: lines).flatMap (· ++ [.char '\n']) := by
    induction lines generalizing line with
    | nil => simp
    | cons next lines ih =>
        rw [List.intercalate_cons_cons, List.append_assoc, ih]
        rfl
  rw [renderAnswer, answerLines]
  split <;> exact close _ _

end Dimacs

end Clausal

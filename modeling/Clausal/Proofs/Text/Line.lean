import Mathlib.Algebra.Ring.Nat
import Mathlib.Data.List.DropRight
import Clausal.Text.Line

/-!
Cutting texts. A line feed cuts a text in two, also next to a carriage return, and a blank cuts a
line in two. So lines and words can be found part by part. Which of the line ends a text has does not
matter.
-/
namespace Clausal.Text

variable {a b line : Text} {c : CodePoint}

theorem isLineEnd_of_isBlank (h : isBlank c = false) : isLineEnd c = false := by
  by_contra ends
  rw [Bool.not_eq_false] at ends
  rw [isBlank_of_isLineEnd ends] at h
  cases h

theorem joinReturns_cons (h : c = .char '\r' → b.head? ≠ some (.char '\n')) :
    joinReturns (c :: b) = c :: joinReturns b := by
  rw [joinReturns]
  rintro rest rfl rfl
  exact h rfl rfl

theorem exists_joinReturns_newline (a : Text) :
    ∃ closed, (joinReturns a = closed ∨ joinReturns a = closed ++ [.char '\r']) ∧
      ∀ b, joinReturns (a ++ .char '\n' :: b) = closed ++ .char '\n' :: joinReturns b := by
  have newline (b : Text) : joinReturns (.char '\n' :: b) = .char '\n' :: joinReturns b :=
    joinReturns_cons nofun
  induction a using joinReturns.induct with
  | case1 rest ih =>
      obtain ⟨closed, ends, cut⟩ := ih
      refine ⟨.char '\n' :: closed, ?_, fun b => ?_⟩
      · rcases ends with ends | ends <;> simp [joinReturns, ends]
      · simp [joinReturns, cut]
  | case2 c rest apart ih =>
      cases rest with
      | nil =>
          by_cases carriage : c = .char '\r'
          · subst carriage
            exact ⟨[], .inr rfl, fun b => by simp [joinReturns]⟩
          · have next (b : Text) : joinReturns (c :: b) = c :: joinReturns b :=
              joinReturns_cons fun h => absurd h carriage
            exact ⟨[c], .inl (next []), fun b => by simp [next, newline]⟩
      | cons d rest =>
          have next (b : Text) : joinReturns (c :: d :: b) = c :: joinReturns (d :: b) := by
            refine joinReturns_cons fun carriage feed => apart rest carriage ?_
            rw [Option.some.inj feed]
          obtain ⟨closed, ends, cut⟩ := ih
          refine ⟨c :: closed, ?_, fun b => ?_⟩
          · rcases ends with ends | ends <;> simp [next, ends]
          · rw [List.cons_append, List.cons_append, next, ← List.cons_append, cut,
              List.cons_append]
  | case3 => exact ⟨[], .inl rfl, newline⟩

theorem lines_of_joinReturns {closed : Text}
    (h : joinReturns line = closed ++ .char '\n' :: joinReturns b) :
    lines line = closed.splitOnP isLineEnd ++ lines b := by
  have some_ := List.splitOnP_ne_nil isLineEnd (joinReturns b)
  rw [lines, lines, h, List.splitOnP_append_cons _ _ rfl]
  rw [List.getLast?_append_of_ne_nil _ some_, List.dropLast_append_of_ne_nil some_]
  split <;> rfl

/-- The lines before a line feed and the lines after it. -/
theorem lines_append_newline (a b : Text) :
    lines (a ++ .char '\n' :: b) = lines (a ++ [.char '\n']) ++ lines b := by
  obtain ⟨closed, _, cut⟩ := exists_joinReturns_newline a
  rw [lines_of_joinReturns (cut b), lines_of_joinReturns (cut []), List.append_assoc]
  rfl

/-- A line feed closes the last line, or else the empty line after it. -/
theorem lines_newline (a : Text) :
    lines (a ++ [.char '\n']) = lines a ∨ lines (a ++ [.char '\n']) = lines a ++ [[]] := by
  obtain ⟨closed, ends, cut⟩ := exists_joinReturns_newline a
  have none_ : lines [] = [] := rfl
  rw [lines_of_joinReturns (cut []), none_, List.append_nil]
  rcases ends with same | carriage
  · rw [lines, same]
    split
    · rename_i last
      obtain ⟨pieces, last⟩ := List.getLast?_eq_some_iff.1 last
      rw [last, List.dropLast_concat]
      exact .inr rfl
    · exact .inl rfl
  · have last : (joinReturns a).splitOnP isLineEnd = closed.splitOnP isLineEnd ++ [[]] := by
      rw [carriage, List.splitOnP_append_cons _ _ rfl, List.splitOnP_nil]
    rw [lines, last]
    simp

theorem lines_newline_ne_nil (a : Text) : lines (a ++ [.char '\n']) ≠ [] := by
  obtain ⟨closed, _, cut⟩ := exists_joinReturns_newline a
  rw [lines_of_joinReturns (cut [])]
  exact List.append_ne_nil_of_left_ne_nil (List.splitOnP_ne_nil isLineEnd closed) _

theorem joinReturns_append (h : ∀ c ∈ a, isLineEnd c = false) (b : Text) :
    joinReturns (a ++ b) = a ++ joinReturns b := by
  induction a with
  | nil => rfl
  | cons c a ih =>
      obtain ⟨first, later⟩ := List.forall_mem_cons.1 h
      have next : joinReturns (c :: (a ++ b)) = c :: joinReturns (a ++ b) := by
        refine joinReturns_cons fun carriage => ?_
        rw [carriage] at first
        cases first
      rw [List.cons_append, next, ih later, List.cons_append]

theorem splitOnP_append {α : Type} {p : α → Bool} {a b : List α} {first : List α}
    {rest : List (List α)} (h : ∀ c ∈ a, p c = false) (split : b.splitOnP p = first :: rest) :
    (a ++ b).splitOnP p = (a ++ first) :: rest := by
  induction a with
  | nil => exact split
  | cons c a ih =>
      obtain ⟨start, later⟩ := List.forall_mem_cons.1 h
      rw [List.cons_append, List.splitOnP_cons_eq_if_modifyHead, start, ih later]
      rfl

/-- What is put in front of a text only makes its first line longer. -/
theorem lines_append {first : Text} {rest : List Text} (h : ∀ c ∈ a, isLineEnd c = false)
    (cut : lines b = first :: rest) : lines (a ++ b) = (a ++ first) :: rest := by
  obtain ⟨head, tail, split⟩ :=
    List.exists_cons_of_ne_nil (List.splitOnP_ne_nil isLineEnd (joinReturns b))
  rw [lines, joinReturns_append h, splitOnP_append h split]
  rw [lines, split] at cut
  cases tail with
  | nil =>
      cases head with
      | nil => cases cut
      | cons c head =>
          cases cut
          simp
  | cons next tail =>
      rw [List.getLast?_cons_cons, List.dropLast_cons_cons] at cut ⊢
      split
      · rename_i last
        rw [if_pos last] at cut
        cases cut
        rfl
      · rename_i last
        rw [if_neg last] at cut
        cases cut
        rfl

theorem lines_of_no_end (h : ∀ c ∈ a, isLineEnd c = false) : lines (a ++ [.char '\n']) = [a] := by
  have feed : lines [.char '\n'] = [[]] := rfl
  rw [lines_append h feed, List.append_nil]

theorem words_append_blank (blank : isBlank c = true) (a b : Text) :
    words (a ++ c :: b) = words a ++ words b := by
  rw [words, List.splitOnP_append_cons _ _ blank, List.filter_append]
  rfl

theorem words_of_no_blank (nonempty : a ≠ []) (h : ∀ c ∈ a, isBlank c = false) :
    words a = [a] := by
  rw [words, List.splitOnP_eq_singleton h]
  simp [nonempty]

theorem words_ne_nil (h : isBlank c = false) (a : Text) : words (c :: a) ≠ [] := by
  obtain ⟨head, tail, split⟩ := List.exists_cons_of_ne_nil (List.splitOnP_ne_nil isBlank a)
  have start : (c :: a).splitOnP isBlank = (c :: head) :: tail :=
    splitOnP_append (a := [c]) (List.forall_mem_singleton.2 h) split
  rw [words, start, List.filter_cons_of_pos rfl]
  nofun

theorem exists_trim_cons (h : isBlank c = false) (a : Text) :
    ∃ rest, trim (c :: a) = c :: rest := by
  rw [trim, List.dropWhile_cons_of_neg (by simp [h]), List.reverse_cons, List.dropWhile_append]
  split
  · rw [List.dropWhile_cons_of_neg (by simp [h])]
    exact ⟨[], rfl⟩
  · exact ⟨_, List.reverse_concat⟩

theorem trim_eq_self (first : ∀ c ∈ a.head?, isBlank c = false)
    (last : ∀ c ∈ a.getLast?, isBlank c = false) : trim a = a := by
  have keeps (b : Text) (h : ∀ c ∈ b.head?, isBlank c = false) : b.dropWhile isBlank = b := by
    cases b with
    | nil => rfl
    | cons c b => exact List.dropWhile_cons_of_neg (by simp [h c rfl])
  rw [← List.head?_reverse] at last
  rw [trim, keeps a first, keeps a.reverse last, List.reverse_reverse]

theorem isBlank_of_trim (h : trim line = c :: a) : isBlank c = false := by
  obtain ⟨later, start⟩ := List.rdropWhile_prefix isBlank (line.dropWhile isBlank)
  have front := List.head?_dropWhile_not isBlank line
  change trim line ++ later = line.dropWhile isBlank at start
  rw [← start, h] at front
  exact front

/-- Every element is in a piece or between two pieces. -/
theorem sum_length_splitOnP {α : Type} (p : α → Bool) (a : List α) :
    ((a.splitOnP p).map List.length).sum + (a.splitOnP p).length = a.length + 1 := by
  induction a with
  | nil => rfl
  | cons c a ih =>
      rw [List.splitOnP_cons_eq_if_modifyHead]
      obtain ⟨head, tail, split⟩ := List.exists_cons_of_ne_nil (List.splitOnP_ne_nil p a)
      rw [split] at ih ⊢
      simp only [List.map_cons, List.sum_cons, List.length_cons] at ih
      split
      · simp only [List.map_cons, List.sum_cons, List.length_cons, List.length_nil]
        omega
      · simp only [List.modifyHead_cons, List.map_cons, List.sum_cons, List.length_cons]
        omega

theorem length_joinReturns_le (text : Text) : (joinReturns text).length ≤ text.length := by
  induction text using joinReturns.induct with
  | case1 rest ih =>
      rw [joinReturns, List.length_cons, List.length_cons, List.length_cons]
      omega
  | case2 c rest apart ih =>
      rw [joinReturns, List.length_cons, List.length_cons]
      · omega
      · exact apart
  | case3 => exact Nat.le_refl _

theorem sum_length_lines (text : Text) : ((lines text).map List.length).sum ≤ text.length := by
  have pieces := sum_length_splitOnP isLineEnd (joinReturns text)
  have some_ := List.length_pos_iff.2 (List.splitOnP_ne_nil isLineEnd (joinReturns text))
  have joined := length_joinReturns_le text
  rw [lines]
  split
  · rename_i last
    obtain ⟨front, last⟩ := List.getLast?_eq_some_iff.1 last
    rw [last, List.map_append, List.sum_append] at pieces
    rw [last, List.dropLast_concat]
    simp only [List.length_append, List.length_singleton] at pieces
    omega
  · omega

/-- A line is not empty, or else a line end closes it. -/
theorem length_lines_le (text : Text) : (lines text).length ≤ text.length := by
  have pieces := sum_length_splitOnP isLineEnd (joinReturns text)
  have joined := length_joinReturns_le text
  rw [lines]
  split
  · rw [List.length_dropLast]
    omega
  · rename_i unclosed
    obtain ⟨front, last, split⟩ :=
      (List.splitOnP isLineEnd (joinReturns text)).eq_nil_or_concat'.resolve_left
        (List.splitOnP_ne_nil isLineEnd (joinReturns text))
    rw [split, List.getLast?_concat] at unclosed
    have some_ : 0 < last.length :=
      List.length_pos_iff.2 fun empty => unclosed (congrArg some empty)
    rw [split] at pieces ⊢
    simp only [List.map_append, List.sum_append, List.map_singleton, List.sum_singleton] at pieces
    omega

theorem length_filter_le_sum {α : Type} (pieces : List (List α)) :
    (pieces.filter (!·.isEmpty)).length ≤ (pieces.map List.length).sum := by
  induction pieces with
  | nil => exact Nat.le_refl _
  | cons piece pieces ih =>
      cases piece with
      | nil => simpa using ih
      | cons c piece =>
          rw [List.filter_cons_of_pos rfl]
          simp only [List.length_cons, List.map_cons, List.sum_cons]
          omega

theorem length_words_le (line : Text) : (words line).length ≤ line.length := by
  have kept := length_filter_le_sum (line.splitOnP isBlank)
  have pieces := sum_length_splitOnP isBlank line
  have some_ := List.length_pos_iff.2 (List.splitOnP_ne_nil isBlank line)
  exact Nat.le_trans kept (by omega)

theorem length_trim_le (line : Text) : (trim line).length ≤ line.length := by
  have front := (List.dropWhile_sublist (l := line) isBlank).length_le
  have back := (List.rdropWhile_prefix isBlank (line.dropWhile isBlank)).length_le
  exact Nat.le_trans back front

/-- Cutting does not see a change that tells the ends from the rest and leaves the rest alone. -/
theorem splitOnP_map {α : Type} {p : α → Bool} {f : α → α} (ends : ∀ c, p (f c) = p c)
    (fixed : ∀ c, p c = false → f c = c) (a : List α) : (a.map f).splitOnP p = a.splitOnP p := by
  induction a with
  | nil => rfl
  | cons c a ih =>
      simp only [List.map_cons, List.splitOnP_cons_eq_if_modifyHead, ends, ih]
      split
      · rfl
      · rename_i kept
        rw [fixed c (by simpa using kept)]

/-- How a code point is read if a carriage return is a line end of its own. -/
def asLineFeed (c : CodePoint) : CodePoint := if c = .char '\r' then .char '\n' else c

theorem isLineEnd_asLineFeed (c : CodePoint) : isLineEnd (asLineFeed c) = isLineEnd c := by
  rw [asLineFeed]
  split
  · rename_i carriage
    rw [carriage]
    rfl
  · rfl

theorem asLineFeed_of_isLineEnd (h : isLineEnd c = false) : asLineFeed c = c := by
  refine if_neg ?_
  rintro rfl
  cases h

theorem joinReturns_normalizeNewlines (text : Text) :
    joinReturns (normalizeNewlines text) = (joinReturns text).map asLineFeed := by
  have newline (b : Text) : joinReturns (.char '\n' :: b) = .char '\n' :: joinReturns b :=
    joinReturns_cons nofun
  induction text using normalizeNewlines.induct with
  | case1 rest ih =>
      rw [normalizeNewlines, newline, ih, joinReturns, List.map_cons]
      rfl
  | case2 rest apart ih =>
      have alone : rest.head? ≠ some (.char '\n') := by
        intro feed
        obtain ⟨later, rfl⟩ := List.head?_eq_some_iff.1 feed
        exact apart later rfl
      rw [normalizeNewlines, newline, ih, joinReturns_cons fun _ => alone, List.map_cons]
      · rfl
      · exact apart
  | case3 c rest _ other ih =>
      have next (b : Text) : joinReturns (c :: b) = c :: joinReturns b :=
        joinReturns_cons fun carriage => absurd carriage other
      rw [normalizeNewlines, next, ih, next, List.map_cons, asLineFeed, if_neg other]
      · assumption
      · assumption
  | case4 => rfl

/-- Reading every carriage return as a line feed changes neither the lines nor their number. -/
theorem lines_normalizeNewlines (text : Text) : lines (normalizeNewlines text) = lines text := by
  rw [lines, joinReturns_normalizeNewlines,
    splitOnP_map isLineEnd_asLineFeed (fun _ => asLineFeed_of_isLineEnd), lines]

end Clausal.Text

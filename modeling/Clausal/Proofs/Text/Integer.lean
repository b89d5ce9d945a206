import Mathlib.Algebra.Ring.Nat
import Clausal.Datum

/-!
Integers written in decimal and read back. A written integer consists of digits after at most one
sign. It is read back if it is short enough, and whatever is read is short enough to be written.
-/
namespace Clausal.Text

variable {digits : List Char} {word : Text}

@[simp]
theorem toNat_char (c : Char) : (CodePoint.char c).toNat = c.toNat :=
  rfl

theorem digitValue?_char {c : Char} (h : c.isDigit = true) :
    digitValue? c = some (c.toNat - '0'.toNat) := by
  obtain ⟨low, high⟩ := Char.isDigit_iff_toNat.1 h
  obtain ⟨later, zeros⟩ : ∃ later, digitZeros = '0'.toNat :: later := ⟨_, rfl⟩
  have upto : c.toNat ≤ '0'.toNat + 9 := high
  have near : (decide ('0'.toNat ≤ c.toNat) && decide (c.toNat ≤ '0'.toNat + 9)) = true := by
    rw [decide_eq_true low, decide_eq_true upto]
    rfl
  rw [digitValue?, zeros]
  exact congrArg (Option.map (c.toNat - ·)) (List.find?_cons_of_pos near)

theorem mapM_digitValue? (h : ∀ c ∈ digits, c.isDigit = true) :
    (digits.map CodePoint.char).mapM digitValue? = some (digits.map (·.toNat - '0'.toNat)) := by
  induction digits with
  | nil => rfl
  | cons c digits ih =>
      obtain ⟨first, later⟩ := List.forall_mem_cons.1 h
      rw [List.map_cons, List.mapM_cons, digitValue?_char first, ih later]
      rfl

theorem natural?_digits (nonempty : digits ≠ []) (short : digits.length ≤ maxDigits)
    (h : ∀ c ∈ digits, c.isDigit = true) :
    natural? (digits.map .char) = some (Nat.ofDigitChars 10 digits 0) := by
  have whole : (digits.map CodePoint.char).splitOn (.char '_') = [digits.map .char] := by
    refine List.splitOnP_eq_singleton fun c hc => ?_
    obtain ⟨d, hd, rfl⟩ := List.mem_map.1 hc
    have digit := h d hd
    refine beq_false_of_ne fun same => ?_
    cases same
    cases digit
  rw [natural?, whole]
  simp [mapM_digitValue? h, nonempty, short, Nat.ofDigitChars, List.foldl_map]

theorem ofString_append (a b : String) : ofString (a ++ b) = ofString a ++ ofString b := by
  rw [ofString, String.toList_append, List.map_append]
  rfl

theorem ofString_repr (n : Nat) : ofString n.repr = (Nat.toDigits 10 n).map .char := by
  rw [ofString, Nat.repr_eq_ofList_toDigits, String.toList_ofList]

theorem isBlank_of_isDigit {c : Char} (h : c.isDigit = true) : isBlank c = false := by
  obtain ⟨low, high⟩ := Char.isDigit_iff_toNat.1 h
  change 0x30 ≤ c.toNat at low
  change c.toNat ≤ 0x39 at high
  rw [Bool.eq_false_iff]
  intro blank
  simp only [isBlank, Bool.or_eq_true, Bool.and_eq_true, decide_eq_true_eq, beq_iff_eq] at blank
  rw [toNat_char] at blank
  omega

theorem isDigit_of_mem {n : Nat} {c : Char} (h : c ∈ Nat.toDigits 10 n) : c.isDigit = true :=
  Nat.isDigit_of_mem_toDigits (by decide) (by decide) h

theorem natural?_repr {n : Nat} (h : n < 10 ^ maxDigits) : natural? (ofString n.repr) = some n := by
  have short : (Nat.toDigits 10 n).length ≤ maxDigits :=
    (Nat.length_toDigits_le_iff (by decide) (by decide)).2 h
  rw [ofString_repr, natural?_digits Nat.toDigits_ne_nil short fun c => isDigit_of_mem,
    Nat.ofDigitChars_ten_toDigits]

/-- A written integer is a written number, with a sign in front if it is negative. -/
theorem ofString_toString (n : Int) :
    ofString (toString n) =
      (if n < 0 then [.char '-'] else []) ++ (Nat.toDigits 10 n.natAbs).map .char := by
  rw [Int.toString_eq_repr, ← ofString_repr]
  cases n with
  | ofNat n =>
      have natural : ¬Int.ofNat n < 0 := Int.not_lt.2 (Int.natCast_nonneg n)
      rw [if_neg natural]
      rfl
  | negSucc n =>
      rw [if_pos (Int.negSucc_lt_zero n)]
      exact congrArg (List.map CodePoint.char) String.toList_append

theorem mem_ofString_toString {n : Int} {c : CodePoint} (h : c ∈ ofString (toString n)) :
    ∃ d : Char, c = .char d ∧ (d = '-' ∨ d.isDigit = true) := by
  rw [ofString_toString, List.mem_append, List.mem_map] at h
  rcases h with sign | ⟨d, hd, rfl⟩
  · split at sign
    · exact ⟨'-', List.mem_singleton.1 sign, .inl rfl⟩
    · cases sign
  · exact ⟨d, rfl, .inr (isDigit_of_mem hd)⟩

theorem ofString_toString_ne_nil (n : Int) : ofString (toString n) ≠ [] := by
  rw [ofString_toString]
  simp

theorem isWritable_iff {n : Int} : Datum.isWritable n = true ↔ n.natAbs < 10 ^ maxDigits := by
  rw [Datum.isWritable, decide_eq_true_iff, Nat.pow_eq]

theorem integer?_negative (rest : Text) :
    integer? (.char '-' :: rest) = (natural? rest).map fun n : Nat => -(n : Int) := by
  rw [integer?]
  cases natural? rest <;> rfl

theorem integer?_unsigned {first : CodePoint} (minus : first ≠ '-') (plus : first ≠ '+')
    (rest : Text) : integer? (first :: rest) = (natural? (first :: rest)).map Int.ofNat := by
  rw [integer?]
  · rintro _ same
    cases same
    exact minus rfl
  · rintro _ same
    cases same
    exact plus rfl

theorem integer?_ofString {n : Int} (h : Datum.isWritable n = true) :
    integer? (ofString (toString n)) = some n := by
  have read := natural?_repr (isWritable_iff.1 h)
  rw [ofString_repr] at read
  rw [ofString_toString]
  split
  · rename_i negative
    rw [List.singleton_append, integer?_negative, read, Option.map_some,
      Int.ofNat_natAbs_of_nonpos (Int.le_of_lt negative), Int.neg_neg]
  · rename_i natural
    obtain ⟨first, digits, start⟩ :=
      List.exists_cons_of_ne_nil (Nat.toDigits_ne_nil (n := n.natAbs) (b := 10))
    have digit : first.isDigit = true := isDigit_of_mem (start ▸ List.mem_cons_self)
    have different {sign : Char} (h : sign.isDigit = false) : CodePoint.char first ≠ sign := by
      rintro same
      cases same
      rw [digit] at h
      cases h
    rw [start, List.map_cons] at read
    rw [List.nil_append, start, List.map_cons, integer?_unsigned (different rfl) (different rfl),
      read, Option.map_some]
    exact congrArg some (Int.natAbs_of_nonneg (Int.not_lt.1 natural))

theorem foldl_digits_lt {digits : List Nat} (h : ∀ d ∈ digits, d < 10) (n : Nat) :
    digits.foldl (fun n d => 10 * n + d) n < (n + 1) * 10 ^ digits.length := by
  induction digits generalizing n with
  | nil => simp
  | cons d digits ih =>
      obtain ⟨first, later⟩ := List.forall_mem_cons.1 h
      calc
        (d :: digits).foldl (fun n d => 10 * n + d) n
          < (10 * n + d + 1) * 10 ^ digits.length := ih later _
        _ ≤ (n + 1) * 10 * 10 ^ digits.length := Nat.mul_le_mul_right _ (by omega)
        _ = (n + 1) * 10 ^ (digits.length + 1) := by
          rw [Nat.pow_succ, Nat.mul_assoc, Nat.mul_comm 10]

theorem lt_of_mapM_digitValue? {values : List Nat} (h : word.mapM digitValue? = some values) :
    ∀ d ∈ values, d < 10 := by
  induction word generalizing values with
  | nil =>
      cases h
      nofun
  | cons c word ih =>
      rw [List.mapM_cons] at h
      cases first : digitValue? c with
      | none =>
          rw [first] at h
          cases h
      | some d =>
          cases later : word.mapM digitValue? with
          | none =>
              rw [first, later] at h
              cases h
          | some rest =>
              rw [first, later] at h
              cases h
              exact List.forall_mem_cons.2 ⟨digitValue?_lt first, ih later⟩

theorem lt_of_natural? {n : Nat} (h : natural? word = some n) : n < 10 ^ maxDigits := by
  rw [natural?] at h
  split at h
  · cases h
  · split at h
    · rename_i digits read
      split at h
      · rename_i short
        cases h
        have bound := foldl_digits_lt (lt_of_mapM_digitValue? read) 0
        rw [Nat.zero_add, Nat.one_mul] at bound
        exact Nat.lt_of_lt_of_le bound (Nat.pow_le_pow_right (by decide) short)
      · cases h
    · cases h

theorem exists_natural?_of_integer? {n : Int} (h : integer? word = some n) :
    ∃ digits, natural? digits = some n.natAbs := by
  rw [integer?.eq_def] at h
  split at h
  · rename_i rest
    cases read : natural? rest with
    | none =>
        rw [read] at h
        cases h
    | some m =>
        rw [read] at h
        cases h
        exact ⟨rest, read.trans (congrArg some (Int.natAbs_neg m).symm)⟩
  · obtain ⟨m, read, rfl⟩ := Option.map_eq_some_iff.1 h
    exact ⟨_, read⟩
  · obtain ⟨m, read, rfl⟩ := Option.map_eq_some_iff.1 h
    exact ⟨_, read⟩

theorem isWritable_of_integer? {n : Int} (h : integer? word = some n) :
    Datum.isWritable n = true := by
  obtain ⟨digits, read⟩ := exists_natural?_of_integer? h
  exact isWritable_iff.2 (lt_of_natural? read)

end Clausal.Text

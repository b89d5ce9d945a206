import Mathlib.Tactic.Ring
import Clausal.Text.Utf8

/-!
What decoding yields. The bounds on the second byte of a sequence keep everything that the sequence
can still become inside a range of scalar values without 0, so bytes other than 0 are never read as
the character 0. They let through what every character is written as, so a text that has been written
is read back.
-/
namespace Clausal.Text

variable {s : Utf8Sequence} {bytes rest : List UInt8} {text done : Text} {n position : Nat}

/-- The code points that the sequence can still become. -/
def Utf8Sequence.CanBecome (s : Utf8Sequence) (n : Nat) : Prop :=
  (s.bits * 64 + (s.low - 0x80)) * 64 ^ (s.missing - 1) ≤ n ∧
    n < (s.bits * 64 + (s.high - 0x80) + 1) * 64 ^ (s.missing - 1)

/-- The sequence becomes a scalar value other than 0, if it becomes anything. -/
structure Utf8Sequence.IsSound (s : Utf8Sequence) : Prop where
  missing : 0 < s.missing
  low : 0x80 ≤ s.low
  scalar : ∀ n, s.CanBecome n → n ≠ 0 ∧ n.isValidChar

theorem isSound_of_start? {b : UInt8} (h : Utf8Sequence.start? b = some s) : s.IsSound := by
  rw [Utf8Sequence.start?] at h
  split at h
  · cases h
  · split at h
    · obtain rfl := Option.some.inj h
      refine ⟨Nat.one_pos, Nat.le_refl _, fun n range => ?_⟩
      simp only [Utf8Sequence.CanBecome, Nat.reduceSub, Nat.reducePow] at range
      rw [Nat.isValidChar]
      omega
    · split at h
      · obtain rfl := Option.some.inj h
        refine ⟨Nat.two_pos, ?_, fun n range => ?_⟩
        · dsimp only
          split <;> decide
        · simp only [Utf8Sequence.CanBecome, Nat.reduceSub, Nat.reducePow] at range
          rw [Nat.isValidChar]
          split at range <;> split at range <;> omega
      · split at h
        · obtain rfl := Option.some.inj h
          refine ⟨Nat.succ_pos 2, ?_, fun n range => ?_⟩
          · dsimp only
            split <;> decide
          · simp only [Utf8Sequence.CanBecome, Nat.reduceSub, Nat.reducePow] at range
            rw [Nat.isValidChar]
            split at range <;> split at range <;> omega
        · cases h

namespace Utf8Sequence.IsSound

variable {b : UInt8} (sound : s.IsSound) (low : s.low ≤ b.toNat) (high : b.toNat ≤ s.high)

include sound low high in
theorem last (one : s.missing = 1) :
    s.bits * 64 + (b.toNat - 0x80) ≠ 0 ∧ (s.bits * 64 + (b.toNat - 0x80)).isValidChar := by
  refine sound.scalar _ ?_
  rw [CanBecome, one, Nat.sub_self, Nat.pow_zero]
  omega

include sound low high in
theorem next (more : s.missing ≠ 1) :
    IsSound ⟨s.bits * 64 + (b.toNat - 0x80), s.missing - 1, 0x80, 0xBF, b :: s.bytes⟩ := by
  have missing := sound.missing
  obtain ⟨k, left⟩ : ∃ k, s.missing = k + 2 := ⟨s.missing - 2, by omega⟩
  refine ⟨by dsimp only; omega, Nat.le_refl _, fun n range => sound.scalar n ?_⟩
  have inner : (s.bits * 64 + (b.toNat - 0x80)) * 64 ^ (k + 1) ≤ n ∧
      n < (s.bits * 64 + (b.toNat - 0x80) + 1) * 64 ^ (k + 1) := by
    generalize s.bits * 64 + (b.toNat - 0x80) = bits at range ⊢
    simp only [CanBecome, left, Nat.reduceSub, Nat.add_zero] at range
    have shift (m : Nat) : m * 64 ^ (k + 1) = m * 64 * 64 ^ k := by ring
    rw [shift, shift, Nat.add_mul]
    exact range
  rw [CanBecome, left]
  constructor
  · refine Nat.le_trans (Nat.mul_le_mul_right _ ?_) inner.1
    omega
  · refine Nat.lt_of_lt_of_le inner.2 (Nat.mul_le_mul_right _ ?_)
    omega

end Utf8Sequence.IsSound

/-- A character other than 0. -/
def IsNameable (c : CodePoint) : Prop := ∃ d : Char, d ≠ '\x00' ∧ c = .char d

theorem isNameable_ofNat (nonzero : n ≠ 0) (valid : n.isValidChar) :
    IsNameable (.char (.ofNat n)) := by
  refine ⟨.ofNat n, fun zero => nonzero ?_, rfl⟩
  have back : (Char.ofNat n).toNat = n := by
    rw [Char.ofNat, dif_pos valid]
    rfl
  rw [zero] at back
  exact back.symm

theorem isNameable_of_decodeUtf8From {started : Option Utf8Sequence} {position : Nat}
    (nonzero : 0 ∉ bytes) (sound : ∀ s ∈ started, s.IsSound) (before : ∀ c ∈ done, IsNameable c)
    (h : decodeUtf8From position done started bytes = .ok text) : ∀ c ∈ text, IsNameable c := by
  have idle : ∀ s ∈ (none : Option Utf8Sequence), s.IsSound := fun _ none_ => by cases none_
  have busy {s : Utf8Sequence} (sound : s.IsSound) : ∀ t ∈ some s, t.IsSound :=
    fun t same => Option.some.inj same ▸ sound
  induction bytes generalizing position done started with
  | nil =>
      cases started with
      | none =>
          cases h
          exact fun c hc => before c (List.mem_reverse.1 hc)
      | some s => cases h
  | cons b rest ih =>
      obtain ⟨first, later⟩ := not_or.1 (mt List.mem_cons.2 nonzero)
      cases started with
      | none =>
          rw [decodeUtf8From] at h
          split at h
          · rename_i ascii
            refine ih later idle (List.forall_mem_cons.2 ⟨?_, before⟩) h
            refine isNameable_ofNat (fun zero => first ?_) (.inl (by omega))
            exact (UInt8.toNat_inj.1 zero).symm
          · split at h
            · cases h
            · rename_i s opened
              exact ih later (busy (isSound_of_start? opened)) before h
      | some s =>
          have s_sound := sound s rfl
          rw [decodeUtf8From] at h
          split at h
          · rename_i range
            dsimp only at h
            split at h
            · rename_i one
              obtain ⟨nonzero, valid⟩ := s_sound.last range.1 range.2 one
              refine ih later idle (List.forall_mem_cons.2 ⟨?_, before⟩) h
              exact isNameable_ofNat nonzero valid
            · rename_i more
              exact ih later (busy (s_sound.next range.1 range.2 more)) before h
          · cases h

theorem isNameable_of_decodeUtf8 (nonzero : 0 ∉ bytes) (h : decodeUtf8 bytes = .ok text) :
    ∀ c ∈ text, IsNameable c :=
  isNameable_of_decodeUtf8From nonzero (fun _ none_ => by cases none_)
    (List.forall_mem_nil _) h

theorem start?_two (least : 2 ≤ n) (most : n < 0x20) :
    Utf8Sequence.start? (.ofNat (n + 0xC0)) = some ⟨n, 1, 0x80, 0xBF, [.ofNat (n + 0xC0)]⟩ := by
  have same : (UInt8.ofNat (n + 0xC0)).toNat = n + 0xC0 := Nat.mod_eq_of_lt (by omega)
  simp only [Utf8Sequence.start?, same]
  rw [if_neg (by omega), if_pos (by omega), Nat.add_sub_cancel]

theorem start?_three (most : n < 0x10) :
    Utf8Sequence.start? (.ofNat (n + 0xE0)) =
      some ⟨n, 2, if n = 0 then 0xA0 else 0x80, if n = 0x0D then 0x9F else 0xBF,
        [.ofNat (n + 0xE0)]⟩ := by
  have same : (UInt8.ofNat (n + 0xE0)).toNat = n + 0xE0 := Nat.mod_eq_of_lt (by omega)
  simp only [Utf8Sequence.start?, same]
  rw [if_neg (by omega), if_neg (by omega), if_pos (by omega), Nat.add_sub_cancel]
  simp only [Nat.add_eq_right, Nat.reduceEqDiff]

theorem start?_four (most : n < 5) :
    Utf8Sequence.start? (.ofNat (n + 0xF0)) =
      some ⟨n, 3, if n = 0 then 0x90 else 0x80, if n = 4 then 0x8F else 0xBF,
        [.ofNat (n + 0xF0)]⟩ := by
  have same : (UInt8.ofNat (n + 0xF0)).toNat = n + 0xF0 := Nat.mod_eq_of_lt (by omega)
  simp only [Utf8Sequence.start?, same]
  rw [if_neg (by omega), if_neg (by omega), if_neg (by omega), if_pos (by omega),
    Nat.add_sub_cancel]
  simp only [Nat.add_eq_right, Nat.reduceEqDiff]

theorem decodeUtf8From_ascii (ascii : n < 0x80) :
    decodeUtf8From position done none (.ofNat n :: rest) =
      decodeUtf8From (position + 1) (.char (.ofNat n) :: done) none rest := by
  have same : (UInt8.ofNat n).toNat = n := Nat.mod_eq_of_lt (by omega)
  rw [decodeUtf8From, same, if_pos ascii]

theorem decodeUtf8From_start {b : UInt8} (h : Utf8Sequence.start? b = some s) :
    decodeUtf8From position done none (b :: rest) =
      decodeUtf8From (position + 1) done (some s) rest := by
  have wide : ¬b.toNat < 0x80 := by
    intro ascii
    rw [Utf8Sequence.start?, if_pos (Nat.lt_trans ascii (by decide))] at h
    cases h
  rw [decodeUtf8From, if_neg wide, h]

section Continuation

variable {bits missing low high : Nat} {read : List UInt8}

/-- Six more bits, with more to come. -/
theorem decodeUtf8From_next (more : missing ≠ 1)
    (fits : low ≤ n + 0x80 ∧ n + 0x80 ≤ high ∧ n < 64) :
    decodeUtf8From position done (some ⟨bits, missing, low, high, read⟩)
        (.ofNat (n + 0x80) :: rest) =
      decodeUtf8From (position + 1) done
        (some ⟨bits * 64 + n, missing - 1, 0x80, 0xBF, .ofNat (n + 0x80) :: read⟩) rest := by
  have same : (UInt8.ofNat (n + 0x80)).toNat = n + 0x80 := Nat.mod_eq_of_lt (by omega)
  rw [decodeUtf8From, same, if_pos ⟨fits.1, fits.2.1⟩, if_neg more, Nat.add_sub_cancel]

/-- The last six bits. -/
theorem decodeUtf8From_last (fits : low ≤ n + 0x80 ∧ n + 0x80 ≤ high ∧ n < 64) :
    decodeUtf8From position done (some ⟨bits, 1, low, high, read⟩) (.ofNat (n + 0x80) :: rest) =
      decodeUtf8From (position + 1) (.char (.ofNat (bits * 64 + n)) :: done) none rest := by
  have same : (UInt8.ofNat (n + 0x80)).toNat = n + 0x80 := Nat.mod_eq_of_lt (by omega)
  rw [decodeUtf8From, same, if_pos ⟨fits.1, fits.2.1⟩, if_pos rfl, Nat.add_sub_cancel]

end Continuation

/-- What a character is written as is read as that character, whatever stands around it. -/
theorem decodeUtf8From_utf8EncodeChar (c : Char) :
    decodeUtf8From position done none (String.utf8EncodeChar c ++ rest) =
      decodeUtf8From (position + (String.utf8EncodeChar c).length) (.char c :: done) none rest := by
  have valid : c.val.toNat.isValidChar := c.valid
  have back {n : Nat} (same : n = c.val.toNat) : Char.ofNat n = c := same ▸ Char.ofNat_toNat c
  rw [Nat.isValidChar] at valid
  fun_cases String.utf8EncodeChar c with
  | case1 v one =>
      rw [List.singleton_append, decodeUtf8From_ascii (by omega), back rfl]
      rfl
  | case2 v _ two =>
      rw [List.cons_append, List.singleton_append,
        decodeUtf8From_start (start?_two (by omega) (by omega)),
        decodeUtf8From_last (by omega), back (by omega)]
      rfl
  | case3 v _ _ three =>
      rw [List.cons_append, List.cons_append, List.singleton_append,
        decodeUtf8From_start (start?_three (by omega)),
        decodeUtf8From_next (by decide) (by split <;> split <;> omega),
        decodeUtf8From_last (by omega), back (by omega)]
      rfl
  | case4 v _ _ four =>
      rw [List.cons_append, List.cons_append, List.cons_append, List.singleton_append,
        decodeUtf8From_start (start?_four (by omega)),
        decodeUtf8From_next (by decide) (by split <;> split <;> omega),
        decodeUtf8From_next (by decide) (by omega),
        decodeUtf8From_last (by omega), back (by omega)]
      rfl

theorem decodeUtf8From_flatMap (h : ∀ c ∈ text, c.isSurrogate = false) :
    decodeUtf8From position done none (text.flatMap utf8Bytes) = .ok (done.reverse ++ text) := by
  induction text generalizing position done with
  | nil => simp [decodeUtf8From]
  | cons c text ih =>
      obtain ⟨first, later⟩ := List.forall_mem_cons.1 h
      cases c with
      | char c =>
          rw [List.flatMap_cons, utf8Bytes, decodeUtf8From_utf8EncodeChar, ih later]
          simp
      | surrogate i => cases first

theorem findUnencodable?_eq_none {hasBytes : CodePoint → Bool} :
    findUnencodable? hasBytes position text = none ↔ ∀ c ∈ text, hasBytes c = true := by
  induction text generalizing position with
  | nil => simp [findUnencodable?]
  | cons c text ih =>
      rw [findUnencodable?, List.forall_mem_cons]
      split
      · rename_i first
        rw [ih, and_iff_right first]
      · rename_i first
        exact iff_of_false nofun fun all => first all.1

/-- A text that has been written is read back. -/
theorem decodeUtf8_of_encodeUtf8 (h : encodeUtf8 text = .ok bytes) :
    decodeUtf8 bytes = .ok text := by
  rw [encodeUtf8] at h
  split at h
  · cases h
  · rename_i encodable
    cases h
    refine decodeUtf8From_flatMap fun c hc => ?_
    simpa using findUnencodable?_eq_none.1 encodable c hc

/-- Every string can be written, and its bytes are the usual ones. -/
theorem encodeUtf8_ofString (t : String) :
    encodeUtf8 (ofString t) = .ok t.toUTF8.data.toList := by
  have encodable : findUnencodable? (!·.isSurrogate) 0 (ofString t) = none := by
    rw [findUnencodable?_eq_none]
    simp [ofString, CodePoint.isSurrogate]
  have bytes : t.toUTF8.data.toList = t.toList.flatMap String.utf8EncodeChar := by
    rw [String.toUTF8_eq_toByteArray, ← String.utf8Encode_toList, List.utf8Encode,
      List.toList_data_toByteArray]
  rw [encodeUtf8, encodable, bytes, ofString, List.flatMap_map]
  rfl

end Clausal.Text

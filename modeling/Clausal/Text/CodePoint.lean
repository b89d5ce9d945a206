/-!
Texts as sequences of code points. A text from outside may hold surrogates that are no part of a
pair: they are code points like all others, but they are not characters and have no UTF-8.
-/
namespace Clausal

/-- The surrogates are numbered from U+D800 on. -/
inductive CodePoint where
  | char (c : Char)
  | surrogate (index : Fin 0x800)
deriving DecidableEq

abbrev Text := List CodePoint

namespace CodePoint

def toNat : CodePoint → Nat
  | .char c => c.toNat
  | .surrogate i => 0xD800 + i

/-- Beyond the last code point there is nothing but U+0000. -/
def ofNat (n : Nat) : CodePoint :=
  if h : 0xD800 ≤ n ∧ n < 0xE000 then .surrogate ⟨n - 0xD800, by omega⟩ else .char (Char.ofNat n)

def isSurrogate : CodePoint → Bool
  | .char _ => false
  | .surrogate _ => true

instance : Coe Char CodePoint := ⟨.char⟩

theorem ofNat_toNat (c : CodePoint) : ofNat c.toNat = c := by
  cases c with
  | char c =>
    have scalar : ¬(0xD800 ≤ c.toNat ∧ c.toNat < 0xE000) := by
      have := c.valid
      simp only [UInt32.isValidChar, Nat.isValidChar] at this
      simp only [Char.toNat]
      omega
    rw [toNat, ofNat, dif_neg scalar, Char.ofNat_toNat]
  | surrogate i =>
    have := i.isLt
    simp only [toNat]
    rw [ofNat, dif_pos ⟨by omega, by omega⟩]
    simp

end CodePoint

namespace Text

def ofString (s : String) : Text := s.toList.map .char

instance : Coe String Text := ⟨ofString⟩

/-- The order of code points, from the first place on where two texts differ. -/
def notAfter : Text → Text → Bool
  | [], _ => true
  | _ :: _, [] => false
  | a :: s, b :: t => if a = b then notAfter s t else a.toNat < b.toNat

/-- The text that can be shown. Surrogates are left out, since nothing shows them. -/
def visible (text : Text) : String :=
  String.ofList (text.filterMap fun
    | .char c => some c
    | .surrogate _ => none)

theorem visible_ofString (s : String) : visible (ofString s) = s := by
  simp only [visible, ofString, List.filterMap_map, Function.comp_def, List.filterMap_some,
    String.ofList_toList]

end Text

end Clausal

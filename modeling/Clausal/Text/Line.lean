import Clausal.Text.CodePoint

/-!
Lines and words of a text. A text is cut into lines at eleven kinds of line end, a carriage
return and a line feed side by side counting as one, and a line is cut into words at blanks.
Both classes are wider than the ASCII ones.
-/
namespace Clausal.Text

/-- Blanks separate words and are trimmed from both ends of a line. -/
def isBlank (c : CodePoint) : Bool :=
  let n := c.toNat
  (0x09 ≤ n && n ≤ 0x0D) || (0x1C ≤ n && n ≤ 0x20) || n == 0x85 || n == 0xA0 || n == 0x1680 ||
    (0x2000 ≤ n && n ≤ 0x200A) || n == 0x2028 || n == 0x2029 || n == 0x202F || n == 0x205F ||
    n == 0x3000

/-- Every line end is also a blank. -/
def isLineEnd (c : CodePoint) : Bool :=
  let n := c.toNat
  (0x0A ≤ n && n ≤ 0x0D) || (0x1C ≤ n && n ≤ 0x1E) || n == 0x85 || n == 0x2028 || n == 0x2029

theorem isBlank_of_isLineEnd {c : CodePoint} (h : isLineEnd c = true) : isBlank c = true := by
  simp only [isLineEnd, isBlank, Bool.or_eq_true, Bool.and_eq_true, decide_eq_true_eq,
    beq_iff_eq] at h ⊢
  omega

/-- A carriage return directly before a line feed is dropped: the two are one line end. -/
def joinReturns : Text → Text
  | .char '\r' :: .char '\n' :: rest => '\n' :: joinReturns rest
  | c :: rest => c :: joinReturns rest
  | [] => []

/-- Every carriage return ends a line by itself, so it and the pair both read as a line feed. -/
def normalizeNewlines : Text → Text
  | .char '\r' :: .char '\n' :: rest => '\n' :: normalizeNewlines rest
  | .char '\r' :: rest => '\n' :: normalizeNewlines rest
  | c :: rest => c :: normalizeNewlines rest
  | [] => []

/-- The lines without their ends. What follows the last line end is a line only if it is not
empty, so the empty text has no line. -/
def lines (text : Text) : List Text :=
  let pieces := (joinReturns text).splitOnP isLineEnd
  if pieces.getLast? = some [] then pieces.dropLast else pieces

/-- The longest stretches without a blank. -/
def words (line : Text) : List Text :=
  (line.splitOnP isBlank).filter (!·.isEmpty)

def trim (line : Text) : Text :=
  ((line.dropWhile isBlank).reverse.dropWhile isBlank).reverse

end Clausal.Text

/-
  PlZero/Text/Blank.lean
  ======================
  **Space characters of Unicode**, and removing them from both ends of a text.
  Settings that come from the environment are read with such margins removed.
-/

namespace PlZero.Text

/-- The characters with the Unicode white-space property, together with the four
    information separators `U+001C` to `U+001F`. -/
def isSpace (c : Char) : Bool :=
  let n := c.toNat
  (0x09 ≤ n && n ≤ 0x0D) || (0x1C ≤ n && n ≤ 0x20) || n == 0x85 || n == 0xA0 ||
  n == 0x1680 || (0x2000 ≤ n && n ≤ 0x200A) || n == 0x2028 || n == 0x2029 ||
  n == 0x202F || n == 0x205F || n == 0x3000

/-- Removes from both ends the characters that satisfy `p`. -/
def trimmed (p : Char → Bool) (cs : List Char) : List Char :=
  ((cs.dropWhile p).reverse.dropWhile p).reverse

/-- Every character that core takes for white space is a space character. -/
theorem isSpace_of_isWhitespace {c : Char} (h : c.isWhitespace = true) : isSpace c = true := by
  simp only [Char.isWhitespace, Bool.or_eq_true, decide_eq_true_eq] at h
  rcases h with ((rfl | rfl) | rfl) | rfl <;> decide

end PlZero.Text

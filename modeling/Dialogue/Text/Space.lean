/-!
# White space

The characters that may stand between the tokens of a script. *Blanks* are the two
that may indent a line, *line breaks* the two that may end one, and *spaces* all
characters with the White_Space property.
-/

namespace Dialogue.Text

/-- A blank inside a line: a space or a tab. -/
def isBlank (c : Char) : Bool := c = ' ' || c = '\t'

/-- A character that ends a line. -/
def isBreak (c : Char) : Bool := c = '\n' || c = '\r'

/-- A character with the White_Space property. -/
def isSpace (c : Char) : Bool :=
  let n := c.toNat
  (9 ≤ n && n ≤ 13) || n = 0x20 || n = 0x85 || n = 0xa0 || n = 0x1680 ||
    (0x2000 ≤ n && n ≤ 0x200a) || n = 0x2028 || n = 0x2029 || n = 0x202f || n = 0x205f ||
    n = 0x3000

/-- The text without the spaces at its end. -/
def trimEnd (cs : List Char) : List Char := (cs.reverse.dropWhile isSpace).reverse

/-- Blanks are white space. -/
theorem isSpace_of_isBlank {c : Char} (h : isBlank c) : isSpace c := by
  simp only [isBlank, Bool.or_eq_true, decide_eq_true_eq] at h
  rcases h with rfl | rfl <;> decide

/-- Line breaks are white space. -/
theorem isSpace_of_isBreak {c : Char} (h : isBreak c) : isSpace c := by
  simp only [isBreak, Bool.or_eq_true, decide_eq_true_eq] at h
  rcases h with rfl | rfl <;> decide

/-- Blanks are no line breaks. -/
theorem not_isBreak_of_isBlank {c : Char} (h : isBlank c) : isBreak c = false := by
  simp only [isBlank, Bool.or_eq_true, decide_eq_true_eq] at h
  rcases h with rfl | rfl <;> decide

end Dialogue.Text

/-!
# Blanks and separators

Two notions of white space meet when a line is read. A line is trimmed of *blanks*, every code point
with the Unicode property `White_Space`; what is left is split into words at *separators*, five
ASCII characters. A separator is always a blank, and not the other way round: a no-break space, or a
vertical tab, inside a trimmed line belongs to the word around it.
-/

namespace HackVM.Text

/-- The code points with the property `White_Space`. -/
def isBlank (c : Char) : Bool :=
  let n := c.toNat
  (0x9 ≤ n && n ≤ 0xD) || n == 0x20 || n == 0x85 || n == 0xA0 || n == 0x1680 ||
    (0x2000 ≤ n && n ≤ 0x200A) || n == 0x2028 || n == 0x2029 || n == 0x202F ||
      n == 0x205F || n == 0x3000

/-- The characters that end a word: tab, line feed, form feed, carriage return and space. -/
def isSeparator (c : Char) : Bool :=
  c == '\t' || c == '\n' || c == '\x0c' || c == '\r' || c == ' '

/-- Every separator is a blank. -/
theorem isBlank_of_isSeparator {c : Char} (h : isSeparator c = true) : isBlank c = true := by
  simp only [isSeparator, Bool.or_eq_true, beq_iff_eq] at h
  rcases h with (((rfl | rfl) | rfl) | rfl) | rfl <;> rfl

/-- What is no blank is no separator. -/
theorem isSeparator_of_not_isBlank {c : Char} (h : isBlank c = false) : isSeparator c = false := by
  rw [Bool.eq_false_iff]
  intro hsep
  rw [isBlank_of_isSeparator hsep] at h
  cases h

/-- Drops the blanks in front. -/
def trimStart (cs : List Char) : List Char :=
  cs.dropWhile isBlank

/-- Drops the blanks at the end. -/
def trimEnd (cs : List Char) : List Char :=
  (cs.reverse.dropWhile isBlank).reverse

/-- Drops the blanks at both ends. -/
def trim (cs : List Char) : List Char :=
  trimEnd (trimStart cs)

end HackVM.Text

import HackVM.Text.Blank

/-!
# Lines and comments

A text is a sequence of *physical lines*, each up to and including its line feed. The code of a line
is what stands before the first `//`, trimmed of blanks. Stack-machine source and Hack assembly
share these rules.
-/

namespace HackVM.Text

/-- The physical lines of a text. Every line but possibly the last ends in a line feed, no line is
empty, and the lines in order make up the text. -/
def lines : List Char → List (List Char)
  | [] => []
  | c :: cs =>
    if c = '\n' then [c] :: lines cs
    else
      match lines cs with
      | [] => [[c]]
      | l :: ls => (c :: l) :: ls

/-- The lines in order make up the text. -/
theorem flatten_lines (cs : List Char) : (lines cs).flatten = cs := by
  induction cs with
  | nil => rfl
  | cons c cs ih =>
    rw [lines]
    split
    · simp [ih]
    · split <;> rename_i h <;> simp [h] at ih <;> simp [← ih]

/-- What stands before the first `//`. -/
def beforeComment : List Char → List Char
  | [] => []
  | [c] => [c]
  | c :: d :: cs => if c = '/' && d = '/' then [] else c :: beforeComment (d :: cs)

/-- The code of a physical line: its text before a comment, without the blanks around it. -/
def codeOf (line : List Char) : List Char :=
  trim (beforeComment line)

/-- The number of bytes that the characters take in UTF-8. -/
def byteLength : List Char → Nat
  | [] => 0
  | c :: cs => c.utf8Size + byteLength cs

@[simp] theorem byteLength_append (cs ds : List Char) :
    byteLength (cs ++ ds) = byteLength cs + byteLength ds := by
  induction cs with
  | nil => simp [byteLength]
  | cons c cs ih => simp [byteLength, ih, Nat.add_assoc]

end HackVM.Text

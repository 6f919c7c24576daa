import HackVM.Span
import HackVM.Text.Line

/-!
# Code lines

A unit's text is read line by line. A physical line with no code (blank, or only a comment) is
skipped but still counted. Every other one is a *code line*: its number and its words, the first of
which names a command. Words are the maximal runs of non-separators in the code, each with its span.

Offsets count bytes from the start of the unit, lines count from 1.
-/

namespace HackVM.Source

open Text

/-- A word of a code line. -/
structure Token where
  text : String
  span : Span
  deriving DecidableEq, Repr

/-- Behind a word less is left than before it. -/
theorem length_dropWhile_lt {cs : List Char} {c : Char} {rest : List Char}
    (h : cs.dropWhile isSeparator = c :: rest) :
    (rest.dropWhile fun d => !isSeparator d).length < cs.length := by
  have h₁ : (rest.dropWhile fun d => !isSeparator d).length ≤ rest.length :=
    (List.dropWhile_sublist _).length_le
  have h₂ : (cs.dropWhile isSeparator).length ≤ cs.length := (List.dropWhile_sublist _).length_le
  rw [h, List.length_cons] at h₂
  omega

/-- The words of a text that starts at `offset` on line `line`: skip the separators, take the run up
to the next one, go on behind it. -/
def tokens (line offset : Nat) (cs : List Char) : List Token :=
  match _h : cs.dropWhile isSeparator with
  | [] => []
  | c :: rest =>
    let start := offset + byteLength (cs.takeWhile isSeparator)
    let word := c :: rest.takeWhile fun d => !isSeparator d
    let stop := start + byteLength word
    ⟨String.ofList word, Span.ofNat line start stop⟩ ::
      tokens line stop (rest.dropWhile fun d => !isSeparator d)
termination_by cs.length
decreasing_by exact length_dropWhile_lt ‹_›

/-- A line that holds code: its number, the word that names the command and the words after it. -/
structure CodeLine where
  number : Nat
  head : Token
  operands : List Token
  deriving DecidableEq, Repr

namespace CodeLine

/-- From the first word to the last. -/
def span (l : CodeLine) : Span :=
  match l.operands.getLast? with
  | none => l.head.span
  | some last => l.head.span.merge last.span

/-- The code line of a physical line with a number and an offset. Code that is not empty starts with
a character that is no separator, so it has a first word. -/
def ofPhysical? (number offset : Nat) (line : List Char) : Option CodeLine :=
  let leading := byteLength ((beforeComment line).takeWhile isBlank)
  match tokens number (offset + leading) (codeOf line) with
  | [] => none
  | head :: operands => some ⟨number, head, operands⟩

/-- The code lines among physical lines, the first of which has a number and an offset. -/
def ofLines (number offset : Nat) : List (List Char) → List CodeLine
  | [] => []
  | line :: rest =>
    (ofPhysical? number offset line).toList ++ ofLines (number + 1) (offset + byteLength line) rest

end CodeLine

/-- The code lines of a unit's text, in order. -/
def codeLines (source : String) : List CodeLine :=
  CodeLine.ofLines 1 0 (lines source.toList)

end HackVM.Source

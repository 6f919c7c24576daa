import HackVM.Text.CaseTable

/-!
# Lowercase text

Full lowercasing, one character at a time with two exceptions. A dotted capital I becomes two
characters. A capital sigma looks around itself: at the end of a word it becomes the final form `ς`,
elsewhere `σ`. On ASCII letters this is the familiar shift by 32, decided before any table is read.
-/

namespace HackVM.Text

/-- Whether a code point lies in one of the ranges. -/
def inRanges (table : List (Nat × Nat)) (n : Nat) : Bool :=
  table.any fun r => r.1 ≤ n && n ≤ r.2

/-- Letters with case, and a few signs that count as such. -/
def isCased (c : Char) : Bool :=
  inRanges CaseTable.cased c.toNat

/-- Characters that a word's casing looks through, such as apostrophes and combining marks. -/
def isCaseIgnorable (c : Char) : Bool :=
  inRanges CaseTable.caseIgnorable c.toNat

/-- The lowercase form of a character that does not depend on its neighbours. -/
def lowerChar (c : Char) : List Char :=
  let n := c.toNat
  if n < 0x80 then [c.toLower]
  else if n = 0x130 then ['i', '\u0307']
  else
    match CaseTable.lowerRuns.find? fun (first, last, step, _) =>
        first ≤ n && n ≤ last && (n - first) % step == 0 with
    | some (_, _, _, shift) => [Char.ofNat (n + shift).toNat]
    | none => [c]

/-- Whether the nearest character that counts for casing is a letter with case. -/
def meetsCased (cs : List Char) : Bool :=
  match cs.dropWhile isCaseIgnorable with
  | c :: _ => isCased c
  | [] => false

/-- A capital sigma between what stands before it, nearest first, and what follows. -/
def lowerSigma (before after : List Char) : Char :=
  if meetsCased before && !meetsCased after then '\u03C2' else '\u03C3'

/-- Lowercases a text, given what stands before it, nearest first. -/
def lowerAfter (before : List Char) : List Char → List Char
  | [] => []
  | c :: cs =>
    (if c = '\u03A3' then [lowerSigma before cs] else lowerChar c) ++ lowerAfter (c :: before) cs

/-- The lowercase form of a text. -/
def lowercase (s : String) : String :=
  String.ofList (lowerAfter [] s.toList)

end HackVM.Text

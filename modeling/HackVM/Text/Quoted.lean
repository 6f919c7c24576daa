import HackVM.Text.EscapeTable
import HackVM.Text.Lowercase

/-!
# Quoted text

How the journal shows a name: between double quotes, with quotes, backslashes and the usual control
characters escaped by a letter, and every character without a shape of its own by its code point.
-/

namespace HackVM.Text.Quoted

/-- The lowercase hexadecimal digits of a number. -/
def hex (n : Nat) : List Char :=
  Nat.toDigits 16 n

/-- A character as it stands between quotes. -/
def escape (c : Char) : List Char :=
  if c = '"' then ['\\', '"']
  else if c = '\\' then ['\\', '\\']
  else if c = '\n' then ['\\', 'n']
  else if c = '\r' then ['\\', 'r']
  else if c = '\t' then ['\\', 't']
  else if c.toNat = 0 then ['\\', '0']
  else if inRanges EscapeTable.escaped c.toNat then "\\u\x7b".toList ++ hex c.toNat ++ ['\x7d']
  else [c]

/-- A text between quotes. -/
def quote (s : String) : String :=
  String.ofList (['"'] ++ s.toList.flatMap escape ++ ['"'])

end HackVM.Text.Quoted

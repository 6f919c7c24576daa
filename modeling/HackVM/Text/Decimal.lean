/-!
# Decimal numbers

Numbers are written without leading zeros and read with any number of them. Main statement: reading
what was written gives the number back (`read?_digits`).
-/

namespace HackVM.Text.Decimal

/-- The digits of a number, most significant first. -/
def digits (n : Nat) : List Char :=
  Nat.toDigits 10 n

/-- A number as text. -/
def text (n : Nat) : String :=
  String.ofList (digits n)

/-- The number that a non-empty run of ASCII digits spells; any other character makes it no
number. -/
def read? (cs : List Char) : Option Nat :=
  if !cs.isEmpty && cs.all Char.isDigit then some (Nat.ofDigitChars 10 cs 0) else none

/-- A number that may carry a plus sign. -/
def readUnsigned? : List Char → Option Nat
  | '+' :: cs => read? cs
  | cs => read? cs

/-- A number that may carry either sign. -/
def readSigned? : List Char → Option Int
  | '-' :: cs => (read? cs).map fun n => -(n : Int)
  | cs => (readUnsigned? cs).map Int.ofNat

@[simp] theorem toList_text (n : Nat) : (text n).toList = digits n :=
  String.toList_ofList

/-- Reading gives back the number that was written. -/
theorem read?_digits (n : Nat) : read? (digits n) = some n := by
  have hne : digits n ≠ [] := Nat.toDigits_ne_nil
  have hall : ∀ c ∈ digits n, c.isDigit = true := fun c hc =>
    Nat.isDigit_of_mem_toDigits (by decide) (by decide) hc
  have hval : Nat.ofDigitChars 10 (digits n) 0 = n := Nat.ofDigitChars_ten_toDigits
  simp [read?, hne, hval, List.all_eq_true.mpr hall]

end HackVM.Text.Decimal

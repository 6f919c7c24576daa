import HackVM.Text.Blank
import HackVM.Text.Decimal
import Mathlib.Data.List.Basic

/-!
# Digits

What a number looks like as text. It is a run of ASCII digits, so it holds no blank and no other
sign, and a text that does not end in a digit can be told apart from a number behind it
(`append_digits_injective`).
-/

namespace HackVM.Text

/-- A digit is no blank. -/
theorem isBlank_of_isDigit {c : Char} (h : c.isDigit = true) : isBlank c = false := by
  have hbounds : 48 ≤ c.toNat ∧ c.toNat ≤ 57 := by
    simpa [Char.isDigit, UInt32.le_iff_toNat_le] using h
  simp [isBlank]
  omega

namespace Decimal

theorem isDigit_of_mem_digits {n : Nat} {c : Char} (h : c ∈ digits n) : c.isDigit = true :=
  Nat.isDigit_of_mem_toDigits (by decide) (by decide) h

/-- Digits hold no other character. -/
theorem notMem_digits {c : Char} (hc : c.isDigit = false) (n : Nat) : c ∉ digits n := by
  intro hmem
  rw [isDigit_of_mem_digits hmem] at hc
  cases hc

/-- Every number has a digit. -/
theorem digits_ne_nil (n : Nat) : digits n ≠ [] :=
  Nat.toDigits_ne_nil

/-- Different numbers are written differently. -/
theorem digits_injective {m n : Nat} (h : digits m = digits n) : m = n := by
  have hread := read?_digits m
  rw [h, read?_digits n] at hread
  exact (Option.some.inj hread).symm

/-- What ends in a digit does not end in a blank. -/
theorem isBlank_getLast_append_digits (cs : List Char) (n : Nat) :
    ∀ c ∈ (cs ++ digits n).getLast?, isBlank c = false := by
  intro c hc
  rw [List.getLast?_append_of_ne_nil _ (digits_ne_nil n)] at hc
  exact isBlank_of_isDigit (isDigit_of_mem_digits (List.mem_of_getLast? hc))

/-- The digits at the end of a text, and what stands before them. -/
theorem dropWhile_isDigit_reverse {cs : List Char} (n : Nat)
    (hcs : ∀ c ∈ cs.getLast?, c.isDigit = false) :
    (cs ++ digits n).reverse.dropWhile Char.isDigit = cs.reverse := by
  have hdigits : ∀ c ∈ (digits n).reverse, c.isDigit = true := fun c hc =>
    isDigit_of_mem_digits (List.mem_reverse.mp hc)
  rw [List.reverse_append, List.dropWhile_append_of_pos hdigits]
  cases hrev : cs.reverse with
  | nil => rfl
  | cons c rest =>
      have hc : c.isDigit = false := by
        refine hcs c ?_
        rw [← List.head?_reverse, hrev]
        rfl
      rw [List.dropWhile_cons_of_neg (by simp [hc])]

/-- A text that does not end in a digit, and a number behind it, can be told apart. -/
theorem append_digits_injective {cs cs' : List Char} {n n' : Nat}
    (hcs : ∀ c ∈ cs.getLast?, c.isDigit = false) (hcs' : ∀ c ∈ cs'.getLast?, c.isDigit = false)
    (h : cs ++ digits n = cs' ++ digits n') : cs = cs' ∧ n = n' := by
  have hrev : cs.reverse = cs'.reverse := by
    rw [← dropWhile_isDigit_reverse n hcs, h, dropWhile_isDigit_reverse n' hcs']
  obtain rfl := List.reverse_injective hrev
  exact ⟨rfl, digits_injective (List.append_cancel_left h)⟩

/-! ## Numbers that may carry a sign -/

/-- A number that is written out is read back. -/
theorem readUnsigned?_digits (n : Nat) : readUnsigned? (digits n) = some n := by
  rw [← read?_digits]
  unfold readUnsigned?
  split
  · next cs heq =>
      have hplus : '+' ∈ digits n := by simp [heq]
      exact absurd hplus (notMem_digits (by decide) n)
  · rfl

/-- A text with a character that can stand in no number is no number. -/
theorem readUnsigned?_eq_none {cs : List Char} (c : Char) (hc : c ∈ cs) (hdigit : c.isDigit = false)
    (hplus : c ≠ '+') : readUnsigned? cs = none := by
  have hread : ∀ ds : List Char, c ∈ ds → read? ds = none := by
    intro ds hmem
    have hall : ds.all Char.isDigit = false := by
      rw [List.all_eq_false]
      exact ⟨c, hmem, by simp [hdigit]⟩
    simp [read?, hall]
  unfold readUnsigned?
  split
  · exact hread _ ((List.mem_cons.mp hc).resolve_left hplus)
  · exact hread _ hc

end Decimal

end HackVM.Text

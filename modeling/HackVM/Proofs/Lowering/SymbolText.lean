import HackVM.Lowering.Block
import HackVM.Proofs.Hack.Statements
import HackVM.Proofs.Text.Digits

/-!
# The spelling of symbols

Symbols of different kinds can only coincide where a name of the source is in play. The spelling of
a generated label holds an underscore and no full stop; that of a label of the source, or of a
static cell, holds a full stop; that of a predefined symbol holds neither. A generated label gives
back its role and its number (`generated_text_injective`), although `END_` is how `END_LOOP_`
begins: what follows a stem is a digit. A static cell gives back its unit and its index
(`static_text_injective`).

None of them spells a number, so to the assembler they are names (`numeral?_eq_none`).
-/

namespace HackVM.Hack

open Text

/-! ## Numbers and names -/

/-- A number that fits a word is read as itself. -/
theorem numeral?_text (n : Word) : numeral? (Decimal.text n.toNat) = some n := by
  have hle : n.toNat ≤ Word.maxUnsigned := by
    have := n.isLt
    rw [Word.maxUnsigned]
    omega
  simp [numeral?, Decimal.readUnsigned?_digits, hle]

/-- A text with a character that can stand in no number is no number. -/
theorem numeral?_eq_none {name : String} (c : Char) (hc : c ∈ name.toList)
    (hdigit : c.isDigit = false) (hplus : c ≠ '+') : numeral? name = none := by
  rw [numeral?, Decimal.readUnsigned?_eq_none c hc hdigit hplus]

/-- No predefined symbol holds a full stop or an underscore. -/
theorem notMem_predefined {entry : String × Word} (h : entry ∈ predefined) :
    '.' ∉ entry.1.toList ∧ '_' ∉ entry.1.toList := by
  have hall : ∀ e ∈ predefined, '.' ∉ e.1.toList ∧ '_' ∉ e.1.toList := by decide +kernel
  exact hall entry h

/-- A name with a full stop or an underscore is not predefined. -/
theorem lookup_predefined_eq_none {name : String} (h : '.' ∈ name.toList ∨ '_' ∈ name.toList) :
    predefined.lookup name = none := by
  rw [List.lookup_eq_none_iff]
  intro entry hentry
  obtain ⟨hstop, hunderscore⟩ := notMem_predefined hentry
  rw [bne_iff_ne]
  rintro rfl
  exact h.elim hstop hunderscore

end HackVM.Hack

namespace HackVM.Lowering

open Text Hack

/-! ## Symbols -/

/-- The address of a cell. -/
def Cell.address : Cell → Word
  | .sp => 0
  | .lcl => 1
  | .arg => 2
  | .this => 3
  | .that => 4
  | .r5 => 5
  | .r13 => 13
  | .r14 => 14

/-- Every cell that is used by name is predefined. -/
theorem Cell.lookup_predefined (c : Cell) : predefined.lookup c.name = some c.address := by
  cases c <;> decide +kernel

/-- Labels for different purposes have different stems. -/
theorem LabelRole.stem_injective {r r' : LabelRole} (h : r.stem = r'.stem) : r = r' := by
  cases r <;> cases r' <;> first | rfl | exact absurd h (by decide)

/-- A stem holds an underscore and no full stop, starts no comment, and ends with no digit. -/
theorem LabelRole.stem_spec (r : LabelRole) :
    '_' ∈ r.stem.toList ∧ '.' ∉ r.stem.toList ∧ '/' ∉ r.stem.toList ∧ '\n' ∉ r.stem.toList ∧
      ∀ c ∈ r.stem.toList.getLast?, c.isDigit = false := by
  refine ⟨?_, ?_, ?_, ?_, ?_⟩
  · cases r <;> decide
  · cases r <;> decide
  · cases r <;> decide
  · cases r <;> decide
  · cases r <;> rintro c ⟨⟩ <;> rfl

/-- A stem and a number can be told apart again. -/
theorem LabelRole.numbered_injective {r r' : LabelRole} {n n' : Nat}
    (h : r.stem ++ Decimal.text n = r'.stem ++ Decimal.text n') : r = r' ∧ n = n' := by
  have hlist := congrArg String.toList h
  rw [String.toList_append, String.toList_append, Decimal.toList_text, Decimal.toList_text] at hlist
  obtain ⟨hstem, hn⟩ :=
    Decimal.append_digits_injective r.stem_spec.2.2.2.2 r'.stem_spec.2.2.2.2 hlist
  exact ⟨stem_injective (String.toList_injective hstem), hn⟩

namespace Symbol

/-- The characters of a generated label. -/
theorem toList_generated (r : LabelRole) (n : UInt32) :
    (generated r n).text.toList = r.stem.toList ++ Decimal.digits n.toNat := by
  simp [text, String.toList_append]

/-- The characters of a label of the source. -/
theorem toList_scoped (f l : String) :
    (Symbol.scoped f l).text.toList = f.toList ++ '.' :: l.toList := by
  simp [text, String.toList_append]

/-- The characters of a static cell. -/
theorem toList_static (u : String) (i : Word) :
    (static u i).text.toList = u.toList ++ '.' :: Decimal.digits i.toNat := by
  simp [text, String.toList_append]

/-- A generated label gives back its role and its number. -/
theorem generated_text_injective {r r' : LabelRole} {n n' : UInt32}
    (h : (generated r n).text = (generated r' n').text) : r = r' ∧ n = n' :=
  (LabelRole.numbered_injective h).imp_right UInt32.toNat_inj.mp

/-- A static cell gives back its unit and its index. -/
theorem static_text_injective {u u' : String} {i i' : Word}
    (h : (static u i).text = (static u' i').text) : u = u' ∧ i = i' := by
  have hlist := congrArg String.toList h
  rw [toList_static, toList_static, List.append_cons, List.append_cons u'.toList] at hlist
  obtain ⟨hunit, hindex⟩ := Decimal.append_digits_injective
    (by simp [List.getLast?_append]) (by simp [List.getLast?_append]) hlist
  exact ⟨String.toList_injective (List.append_cancel_right hunit), BitVec.eq_of_toNat_eq hindex⟩

/-- Generated labels hold an underscore. -/
theorem underscore_mem_generated (r : LabelRole) (n : UInt32) :
    '_' ∈ (generated r n).text.toList := by
  rw [toList_generated]
  exact List.mem_append_left _ r.stem_spec.1

/-- Generated labels hold no full stop. -/
theorem stop_notMem_generated (r : LabelRole) (n : UInt32) :
    '.' ∉ (generated r n).text.toList := by
  rw [toList_generated, List.mem_append, not_or]
  exact ⟨r.stem_spec.2.1, Decimal.notMem_digits (by decide) _⟩

/-- Labels of the source hold a full stop. -/
theorem stop_mem_scoped (f l : String) : '.' ∈ (Symbol.scoped f l).text.toList := by
  simp [toList_scoped]

/-- Static cells hold a full stop. -/
theorem stop_mem_static (u : String) (i : Word) : '.' ∈ (static u i).text.toList := by
  simp [toList_static]

/-- The assembler reads a reference to the symbol as the name that was written. -/
structure Faithful (s : Symbol) : Prop where
  asRead_eq : asRead s.text = s.text
  numeral?_eq : numeral? s.text = none

/-- Cells are read as they are written. -/
theorem faithful_cell (c : Cell) : (cell c).Faithful := by
  constructor <;> cases c <;> decide +kernel

/-- No comment starts in a generated label. -/
theorem noComment_generated (r : LabelRole) (n : UInt32) :
    NoComment (generated r n).text.toList := by
  rw [toList_generated]
  refine noComment_of_notMem ?_
  rw [List.mem_append, not_or]
  exact ⟨r.stem_spec.2.2.1, Decimal.notMem_digits (by decide) _⟩

/-- Generated labels are read as they are written. -/
theorem faithful_generated (r : LabelRole) (n : UInt32) : (generated r n).Faithful := by
  refine ⟨asRead_eq_self (noComment_generated r n) ?_,
    numeral?_eq_none '_' (underscore_mem_generated r n) (by decide) (by decide)⟩
  rw [toList_generated]
  exact Decimal.isBlank_getLast_append_digits _ _

/-- Static cells are read as they are written, if no comment starts in the name of their unit. -/
theorem faithful_static {u : String} (hu : NoComment u.toList) (i : Word) :
    (static u i).Faithful := by
  refine ⟨asRead_eq_self ?_ ?_,
    numeral?_eq_none '.' (stop_mem_static u i) (by decide) (by decide)⟩
  · rw [toList_static, noComment_append_cons (by decide)]
    exact ⟨hu, noComment_of_notMem (Decimal.notMem_digits (by decide) _)⟩
  · rw [toList_static, List.append_cons]
    exact Decimal.isBlank_getLast_append_digits _ _

/-- Labels of the source are read as they are written, if no comment starts in them and they end in
no blank. -/
theorem faithful_scoped {f l : String} (hf : NoComment f.toList) (hl : NoComment l.toList)
    (hlast : ∀ c ∈ l.toList.getLast?, isBlank c = false) : (Symbol.scoped f l).Faithful := by
  refine ⟨asRead_eq_self ?_ ?_,
    numeral?_eq_none '.' (stop_mem_scoped f l) (by decide) (by decide)⟩
  · rw [toList_scoped, noComment_append_cons (by decide)]
    exact ⟨hf, hl⟩
  · intro c hc
    rw [toList_scoped, List.append_cons] at hc
    by_cases hnil : l.toList = []
    · rw [hnil, List.append_nil, List.getLast?_append] at hc
      cases hc
      rfl
    · rw [List.getLast?_append_of_ne_nil _ hnil] at hc
      exact hlast c hc

end Symbol

/-- A number is read as itself. -/
theorem asRead_number (n : Nat) : asRead (Decimal.text n) = Decimal.text n := by
  refine asRead_eq_self ?_ ?_
  · rw [Decimal.toList_text]
    exact noComment_of_notMem (Decimal.notMem_digits (by decide) n)
  · rw [Decimal.toList_text, ← List.nil_append (Decimal.digits n)]
    exact Decimal.isBlank_getLast_append_digits [] n

end HackVM.Lowering

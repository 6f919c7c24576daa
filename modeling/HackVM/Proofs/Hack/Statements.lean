import HackVM.Hack.Assembler
import HackVM.Lowering.AsmLine
import HackVM.Proofs.Text.CodeText

/-!
# How the assembler reads typed lines

Lines of assembly are written as text and read back by the assembler. Main statement
(`statements_render`): the assembler sees one statement for each line that is no comment, and it is
the statement that was meant (`AsmLine.statement?`), as long as no name holds a line feed and no
label that is defined holds a comment (`AsmLine.Legible`).

One thing is lost on the way: the operand of an address instruction is cut at a comment and loses
the blanks at its end (`asRead`). Labels are not, since the parenthesis closes them.
-/

namespace HackVM.Hack

open Text

/-! ## Compute instructions -/

/-- A text is split at the first separator. -/
theorem splitAtFirst?_append {sep : Char} {cs ds : List Char} (h : sep ∉ cs) :
    splitAtFirst? sep (cs ++ sep :: ds) = some (cs, ds) := by
  have hpos : ∀ c ∈ cs, (c != sep) = true := by
    intro c hc
    simpa using fun heq : c = sep => h (heq ▸ hc)
  rw [splitAtFirst?, List.dropWhile_append_of_pos hpos, List.takeWhile_append_of_pos hpos]
  simp

/-- A text without the separator is not split. -/
theorem splitAtFirst?_of_notMem {sep : Char} {cs : List Char} (h : sep ∉ cs) :
    splitAtFirst? sep cs = none := by
  have hnil : cs.dropWhile (· != sep) = [] := by
    rw [List.dropWhile_eq_nil_iff]
    intro c hc
    simpa using fun heq : c = sep => h (heq ▸ hc)
  rw [splitAtFirst?, hnil]

/-- A character that can stand in a mnemonic: it ends no part of an instruction, starts no comment
and is no blank. -/
def isMnemonic (c : Char) : Bool :=
  c != '=' && c != ';' && c != '/' && !isBlank c

/-- A computation is written with mnemonic characters. -/
theorem Computation.isMnemonic_text (v : Computation) :
    ∀ c ∈ v.text.toList, isMnemonic c = true := by
  rw [← List.all_eq_true]
  cases v with
  | zero | one | minusOne => decide
  | copy r | not r | neg r | succ r | pred r => cases r <;> decide
  | add s | dMinus s | minusD s | and s | or s => cases s <;> decide

/-- A register is written with mnemonic characters. -/
theorem Register.isMnemonic_text (r : Register) : ∀ c ∈ r.text.toList, isMnemonic c = true := by
  rw [← List.all_eq_true]
  cases r <;> decide

/-- A jump is written with mnemonic characters. -/
theorem Jump.isMnemonic_text (j : Jump) : ∀ c ∈ j.text.toList, isMnemonic c = true := by
  rw [← List.all_eq_true]
  cases j <;> decide

/-- No computation is spelled with the first character of a label or an address instruction. -/
theorem Computation.text_head (v : Computation) :
    ∃ c cs, v.text.toList = c :: cs ∧ c ≠ '(' ∧ c ≠ '@' := by
  cases v with
  | zero | one | minusOne => exact ⟨_, _, rfl, by decide, by decide⟩
  | copy r | not r | neg r | succ r | pred r => cases r <;> exact ⟨_, _, rfl, by decide, by decide⟩
  | add s | dMinus s | minusD s | and s | or s =>
    cases s <;> exact ⟨_, _, rfl, by decide, by decide⟩

section mnemonics

variable {cs : List Char} (h : ∀ c ∈ cs, isMnemonic c = true)
include h

/-- Text of mnemonic characters holds no other one. -/
theorem notMem_of_isMnemonic {c : Char} (hc : isMnemonic c = false) : c ∉ cs := by
  intro hmem
  rw [h c hmem] at hc
  cases hc

end mnemonics

/-- `dest=value` stores a computation and goes on. -/
theorem Compute.ofText_assign (r : Register) (v : Computation) :
    Compute.ofText (r.text.toList ++ '=' :: v.text.toList) =
      ⟨⟨r = .a, r = .d, r = .m⟩, .ok v, .ok none⟩ := by
  have heq : '=' ∉ r.text.toList := notMem_of_isMnemonic r.isMnemonic_text rfl
  have hsemi : ';' ∉ v.text.toList := notMem_of_isMnemonic v.isMnemonic_text rfl
  simp only [Compute.ofText, splitAtFirst?_append heq, Option.getD_some,
    splitAtFirst?_of_notMem hsemi, String.ofList_toList, Computation.ofText?_text, Option.elim_some]
  cases r <;> rfl

/-- `value;jump` stores nothing and may jump. -/
theorem Compute.ofText_branch (v : Computation) (j : Jump) :
    Compute.ofText (v.text.toList ++ ';' :: j.text.toList) =
      ⟨⟨false, false, false⟩, .ok v, .ok (some j)⟩ := by
  have heq : '=' ∉ v.text.toList ++ ';' :: j.text.toList := by
    simp [notMem_of_isMnemonic v.isMnemonic_text (c := '=') rfl,
      notMem_of_isMnemonic j.isMnemonic_text (c := '=') rfl]
  have hsemi : ';' ∉ v.text.toList := notMem_of_isMnemonic v.isMnemonic_text rfl
  simp only [Compute.ofText, splitAtFirst?_of_notMem heq, Option.getD_none,
    splitAtFirst?_append hsemi, String.ofList_toList, Computation.ofText?_text, Jump.ofText?_text,
    Option.elim_some]
  rfl

/-- A statement that opens with neither `(` nor `@` computes. -/
theorem Statement.ofText_compute {c : Char} {cs : List Char} (hdefine : c ≠ '(') (hload : c ≠ '@') :
    Statement.ofText (c :: cs) = .compute (Compute.ofText (c :: cs)) := by
  unfold Statement.ofText
  split
  · next heq => exact absurd (List.cons.inj heq).1 hdefine
  · next heq => exact absurd (List.cons.inj heq).1 hload
  · rfl

end HackVM.Hack

namespace HackVM.Lowering

open Text Hack

/-! ## Lines -/

/-- What the assembler takes the operand of an address instruction to be. -/
def asRead (operand : String) : String :=
  String.ofList (trimEnd (beforeComment operand.toList))

/-- An operand without a comment that does not end with a blank is read as it stands. -/
theorem asRead_eq_self {operand : String} (hcomment : NoComment operand.toList)
    (hlast : ∀ c ∈ operand.toList.getLast?, isBlank c = false) : asRead operand = operand := by
  rw [asRead, beforeComment_of_noComment hcomment, trimEnd_of_getLast hlast, String.ofList_toList]

namespace AsmLine

/-- The statement that a line is. -/
def statement? : AsmLine → Option Statement
  | .comment _ => none
  | .define s => some (.define s.text)
  | .load o => some (.load (asRead o.text))
  | .assign target value =>
    some (.compute ⟨⟨target = .a, target = .d, target = .m⟩, .ok value, .ok none⟩)
  | .branch tested jump => some (.compute ⟨⟨false, false, false⟩, .ok tested, .ok (some jump)⟩)

/-- The line is read as it was meant. -/
def Legible : AsmLine → Prop
  | .comment text => '\n' ∉ text.toList
  | .define s => '\n' ∉ s.text.toList ∧ NoComment s.text.toList
  | .load o => '\n' ∉ o.text.toList
  | .assign _ _ | .branch _ _ => True

/-- Code made of mnemonics is neither cut nor trimmed. -/
theorem codeOf_mnemonics {cs ds : List Char} {c : Char} (hc : c ≠ '/')
    (hcs : ∀ c ∈ cs, isMnemonic c = true) (hds : ∀ c ∈ ds, isMnemonic c = true) (hcs' : cs ≠ [])
    (hds' : ds ≠ []) : codeOf (cs ++ c :: ds) = cs ++ c :: ds := by
  have hblank : ∀ d, isMnemonic d = true → isBlank d = false := by
    intro d hd
    simpa [isMnemonic] using (Bool.and_eq_true_iff.mp hd).2
  rw [codeOf, beforeComment_of_noComment, trim_eq_self]
  · intro d hd
    refine hblank d (hcs d ?_)
    rw [List.head?_append_of_ne_nil _ hcs'] at hd
    exact List.mem_of_mem_head? hd
  · intro d hd
    refine hblank d (hds d ?_)
    rw [← List.singleton_append, ← List.append_assoc, List.getLast?_append_of_ne_nil _ hds'] at hd
    exact List.mem_of_getLast? hd
  · rw [noComment_append_cons hc]
    exact ⟨noComment_of_notMem (notMem_of_isMnemonic hcs rfl),
      noComment_of_notMem (notMem_of_isMnemonic hds rfl)⟩

/-- A legible line, without its line feed, is read as its statement. -/
theorem read_text {l : AsmLine} (hl : l.Legible) :
    (if codeOf l.text.toList = [] then none else some (Statement.ofText (codeOf l.text.toList))) =
      l.statement? := by
  cases l with
  | comment text =>
      have hcode : codeOf (AsmLine.comment text).text.toList = [] := by
        have htext : (AsmLine.comment text).text.toList = '/' :: '/' :: ' ' :: text.toList := by
          simp [AsmLine.text, String.toList_append]
        rw [htext, codeOf, beforeComment_cons_cons, if_pos ⟨rfl, rfl⟩]
        rfl
      rw [if_pos hcode]
      rfl
  | define s =>
      have htext : (AsmLine.define s).text.toList = '(' :: (s.text.toList ++ [')']) := by
        simp [AsmLine.text, String.toList_append]
      have hcode : codeOf ('(' :: (s.text.toList ++ [')'])) = '(' :: (s.text.toList ++ [')']) := by
        rw [codeOf, beforeComment_of_noComment, trim_eq_self]
        · rintro c ⟨⟩
          rfl
        · intro c hc
          rw [← List.cons_append, List.getLast?_append] at hc
          cases hc
          rfl
        · rw [noComment_cons_of_ne (by decide), noComment_append_cons (by decide)]
          exact ⟨hl.2, noComment_nil⟩
      rw [htext, hcode, if_neg (by simp)]
      simp [Statement.ofText, statement?]
  | load o =>
      have htext : (AsmLine.load o).text.toList = '@' :: o.text.toList := by
        simp [AsmLine.text, String.toList_append]
      have hbefore : beforeComment ('@' :: o.text.toList) = '@' :: beforeComment o.text.toList := by
        cases o.text.toList with
        | nil => rfl
        | cons c cs => rw [beforeComment_cons_cons, if_neg (by simp)]
      have hcode : codeOf ('@' :: o.text.toList) =
          '@' :: trimEnd (beforeComment o.text.toList) := by
        rw [codeOf, hbefore, trim, trimStart, List.dropWhile_cons_of_neg (by decide),
          trimEnd_cons rfl]
      rw [htext, hcode, if_neg (by simp)]
      rfl
  | assign target value =>
      have htext : (AsmLine.assign target value).text.toList =
          target.text.toList ++ '=' :: value.text.toList := by
        simp [AsmLine.text, String.toList_append]
      obtain ⟨c, cs, hvalue, -, -⟩ := value.text_head
      rw [htext, codeOf_mnemonics (by decide) target.isMnemonic_text value.isMnemonic_text
        (by cases target <;> decide) (by simp [hvalue]), if_neg (by simp)]
      have hhead : ∃ c cs, target.text.toList ++ '=' :: value.text.toList = c :: cs ∧ c ≠ '(' ∧
          c ≠ '@' := by
        cases target <;> exact ⟨_, _, rfl, by decide, by decide⟩
      obtain ⟨c, cs, hcons, hdefine, hload⟩ := hhead
      rw [hcons, Statement.ofText_compute hdefine hload, ← hcons, Compute.ofText_assign]
      rfl
  | branch tested jump =>
      have htext : (AsmLine.branch tested jump).text.toList =
          tested.text.toList ++ ';' :: jump.text.toList := by
        simp [AsmLine.text, String.toList_append]
      obtain ⟨c, cs, htested, hdefine, hload⟩ := tested.text_head
      rw [htext,
        codeOf_mnemonics (by decide) tested.isMnemonic_text jump.isMnemonic_text (by simp [htested])
          (by cases jump <;> decide),
        if_neg (by simp), htested, List.cons_append, Statement.ofText_compute hdefine hload,
        ← List.cons_append, ← htested, Compute.ofText_branch]
      rfl

/-- A legible line takes up one physical line. -/
theorem newline_notMem_text {l : AsmLine} (hl : l.Legible) : '\n' ∉ l.text.toList := by
  cases l with
  | comment text =>
      have : '\n' ∉ text.toList := hl
      simp [AsmLine.text, String.toList_append, this]
  | define s =>
      have : '\n' ∉ s.text.toList := hl.1
      simp [AsmLine.text, String.toList_append, this]
  | load o =>
      have : '\n' ∉ o.text.toList := hl
      simp [AsmLine.text, String.toList_append, this]
  | assign target value =>
      simp [AsmLine.text, String.toList_append,
        notMem_of_isMnemonic target.isMnemonic_text (c := '\n') rfl,
        notMem_of_isMnemonic value.isMnemonic_text (c := '\n') rfl]
  | branch tested jump =>
      simp [AsmLine.text, String.toList_append,
        notMem_of_isMnemonic tested.isMnemonic_text (c := '\n') rfl,
        notMem_of_isMnemonic jump.isMnemonic_text (c := '\n') rfl]

end AsmLine

/-- **The assembler reads what was meant.** -/
theorem statements_render {ls : List AsmLine} (h : ∀ l ∈ ls, l.Legible) :
    statements (render ls) = ls.filterMap AsmLine.statement? := by
  induction ls with
  | nil => rfl
  | cons l ls ih =>
      have hl := h l List.mem_cons_self
      have hrest := ih fun x hx => h x (List.mem_cons_of_mem _ hx)
      have htext : (render (l :: ls)).toList = l.text.toList ++ '\n' :: (render ls).toList := by
        simp [render, String.toList_append]
      rw [List.filterMap_cons, ← hrest, ← AsmLine.read_text hl]
      simp only [statements, htext, lines_line (AsmLine.newline_notMem_text hl), List.map_cons,
        codeOf_append_newline]
      by_cases hcode : codeOf l.text.toList = []
      · simp [hcode]
      · simp [hcode]

end HackVM.Lowering

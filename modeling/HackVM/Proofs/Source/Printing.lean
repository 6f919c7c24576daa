import HackVM.Proofs.Source.Grammar
import HackVM.Proofs.Source.Spans
import HackVM.Proofs.Text.Digits

/-!
# Reading what was printed

Instructions printed one a line (`printed`) are read back as they were, each on its own line, with a
span that covers its text and nothing else, and without a warning (`readings_printed`). An
instruction can be printed so (`Printable`) if the reader could have given it and, where its line
ends with a name, that name does not end with a blank: such a blank would be trimmed off the line.

The text of an instruction is its words with a space between them (`toList_text`). So the line is
cut into these words again (`words_spaced`), they are a form of the language (`spells_spelling`),
and no word is left over to be ignored.
-/

namespace HackVM.Source

open Text

/-! ## Words with a space between them -/

/-- Words in order, with a space between any two. -/
def spaced : List String → List Char
  | [] => []
  | [w] => w.toList
  | w :: v :: ws => w.toList ++ ' ' :: spaced (v :: ws)

/-- Plain words with a space between them are read back. -/
theorem words_spaced {ws : List String} (h : ∀ w ∈ ws, PlainName w) : words (spaced ws) = ws := by
  have hfirst : ∀ w, PlainName w → ∀ rest, (∀ c ∈ rest.head?, isSeparator c = true) →
      words (w.toList ++ rest) = w :: words rest := by
    intro w hw rest hrest
    rw [words_append (by simpa using hw.ne_empty) hw.noSeparator hrest, String.ofList_toList]
  induction ws using spaced.induct with
  | case1 => exact words_nil
  | case2 w =>
      have hw := hfirst w (h w List.mem_cons_self) [] (by simp)
      rwa [List.append_nil, words_nil] at hw
  | case3 w v ws ih =>
      rw [spaced, hfirst w (h w List.mem_cons_self) _ (by rintro c ⟨⟩; rfl),
        words_cons_of_isSeparator rfl, ih fun x hx => h x (List.mem_cons_of_mem _ hx)]

/-- Between plain words no comment begins. -/
theorem noComment_spaced {ws : List String} (h : ∀ w ∈ ws, PlainName w) :
    NoComment (spaced ws) := by
  induction ws using spaced.induct with
  | case1 => exact noComment_nil
  | case2 w => exact (h w List.mem_cons_self).noComment
  | case3 w v ws ih =>
      rw [spaced, noComment_append_cons (by decide)]
      exact ⟨(h w List.mem_cons_self).noComment, ih fun x hx => h x (List.mem_cons_of_mem _ hx)⟩

/-- Plain words stand on one line. -/
theorem newline_notMem_spaced {ws : List String} (h : ∀ w ∈ ws, PlainName w) :
    '\n' ∉ spaced ws := by
  induction ws using spaced.induct with
  | case1 => exact List.not_mem_nil
  | case2 w => exact (h w List.mem_cons_self).newline_notMem
  | case3 w v ws ih =>
      have hw := (h w List.mem_cons_self).newline_notMem
      have hrest := ih fun x hx => h x (List.mem_cons_of_mem _ hx)
      rw [spaced, List.mem_append, List.mem_cons]
      rintro (hmem | hmem | hmem)
      · exact hw hmem
      · exact absurd hmem (by decide)
      · exact hrest hmem

/-- The words start with the first of them. -/
theorem head?_spaced {w : String} (hw : w ≠ "") (ws : List String) :
    (spaced (w :: ws)).head? = w.toList.head? := by
  cases ws with
  | nil => rfl
  | cons v ws =>
      rw [spaced]
      exact List.head?_append_of_ne_nil _ (by simpa using hw)

/-- The words end with the last of them. -/
theorem getLast?_spaced {ws : List String} {last : String} (hlast : ws.getLast? = some last)
    (hne : last ≠ "") : (spaced ws).getLast? = last.toList.getLast? := by
  induction ws using spaced.induct with
  | case1 => cases hlast
  | case2 w =>
      cases hlast
      rfl
  | case3 w v ws ih =>
      have hrest := ih (by rwa [List.getLast?_cons_cons] at hlast)
      have hlist : last.toList ≠ [] := by simpa using hne
      rw [spaced, List.append_cons, List.getLast?_append, hrest,
        List.getLast?_eq_getLast_of_ne_nil hlist]
      rfl

/-! ## The words of an instruction -/

/-- A word made of characters that are no separators and no slashes is plain. -/
theorem plainName_of_all {w : String} (hne : w ≠ "")
    (hall : (w.toList.all fun c => !isSeparator c && c != '/') = true) : PlainName w := by
  have hchar : ∀ c ∈ w.toList, isSeparator c = false ∧ c ≠ '/' := by
    intro c hc
    simpa using List.all_eq_true.mp hall c hc
  exact ⟨hne, fun c hc => (hchar c hc).1, noComment_of_notMem fun hmem => (hchar _ hmem).2 rfl⟩

/-- Keywords are plain words. -/
theorem plainName_keyword (k : Keyword) : PlainName k.text := by
  cases k with
  | operator op => cases op <;> exact plainName_of_all (by decide) (by decide)
  | _ => exact plainName_of_all (by decide) (by decide)

/-- So are the names of segments. -/
theorem plainName_segment (seg : Segment) : PlainName seg.name := by
  cases seg <;> exact plainName_of_all (by decide) (by decide)

/-- The words that an instruction is written with. -/
def spelling : Instruction → List String
  | .arithmetic op => [op.name]
  | .push seg n => ["push", seg.name, Decimal.text n.toNat]
  | .pop seg n => ["pop", seg.name, Decimal.text n.toNat]
  | .label name => ["label", name]
  | .goto name => ["goto", name]
  | .ifGoto name => ["if-goto", name]
  | .function name n => ["function", name, Decimal.text n.toNat]
  | .call name n => ["call", name, Decimal.text n.toNat]
  | .ret => ["return"]

/-- An instruction is printed as the words that spell it. -/
theorem toList_text (i : Instruction) : i.text.toList = spaced (spelling i) := by
  cases i <;> simp [Instruction.text, Instruction.keyword, Instruction.subject, Instruction.number,
    Keyword.text, spelling, spaced, String.toList_append]

/-- Numbers are plain words. -/
theorem plainName_decimal (n : Nat) : PlainName (Decimal.text n) := by
  refine ⟨?_, ?_, ?_⟩
  · intro hnil
    apply Decimal.digits_ne_nil n
    rw [← Decimal.toList_text, hnil]
    rfl
  · intro c hc
    rw [Decimal.toList_text] at hc
    exact isSeparator_of_not_isBlank (isBlank_of_isDigit (Decimal.isDigit_of_mem_digits hc))
  · rw [Decimal.toList_text]
    exact noComment_of_notMem (Decimal.notMem_digits (by decide) n)

/-- A readable instruction is spelled with plain words. -/
theorem plainName_spelling {i : Instruction} (h : Readable i) : ∀ w ∈ spelling i, PlainName w := by
  cases i with
  | arithmetic op =>
      rintro w hw
      cases List.mem_singleton.mp hw
      exact plainName_keyword (.operator op)
  | push seg n =>
      simp only [spelling, List.forall_mem_cons]
      exact ⟨plainName_keyword .push, plainName_segment seg, plainName_decimal _, by simp⟩
  | pop seg n =>
      simp only [spelling, List.forall_mem_cons]
      exact ⟨plainName_keyword .pop, plainName_segment seg, plainName_decimal _, by simp⟩
  | label name =>
      simp only [spelling, List.forall_mem_cons]
      exact ⟨plainName_keyword .label, h, by simp⟩
  | goto name =>
      simp only [spelling, List.forall_mem_cons]
      exact ⟨plainName_keyword .goto, h, by simp⟩
  | ifGoto name =>
      simp only [spelling, List.forall_mem_cons]
      exact ⟨plainName_keyword .ifGoto, h, by simp⟩
  | function name n =>
      simp only [spelling, List.forall_mem_cons]
      exact ⟨plainName_keyword .function, h.1, plainName_decimal _, by simp⟩
  | call name n =>
      simp only [spelling, List.forall_mem_cons]
      exact ⟨plainName_keyword .call, h.1, plainName_decimal _, by simp⟩
  | ret =>
      rintro w hw
      cases List.mem_singleton.mp hw
      exact plainName_keyword .ret

/-- Keywords are in lower case. -/
theorem lowercase_keyword (k : Keyword) : lowercase k.text = k.text := by
  cases k with
  | operator op => cases op <;> decide +kernel
  | _ => decide +kernel

/-- A number within its limit spells itself. -/
theorem spellsInteger_decimal {limit : Nat} {n : Word} (h : n.toNat ≤ limit) :
    SpellsInteger (Decimal.text n.toNat) limit n := by
  have hread := Decimal.read?_digits n.toNat
  rw [← Decimal.toList_text] at hread
  obtain ⟨-, hdigits, hvalue⟩ := read?_eq_some_iff.mp hread
  exact ⟨(plainName_decimal n.toNat).ne_empty, hdigits, hvalue, h⟩

/-- The words of an instruction are a form of the language, and it names that instruction. -/
theorem spells_spelling {i : Instruction} (h : Readable i) : Spells (spelling i) i := by
  cases i with
  | arithmetic op => exact .arithmetic (lowercase_keyword (.operator op))
  | push seg n => exact .push (lowercase_keyword .push) (spellsInteger_decimal h)
  | pop seg n => exact .pop (lowercase_keyword .pop) (spellsInteger_decimal h.2) h.1
  | label name => exact .label (lowercase_keyword .label)
  | goto name => exact .goto (lowercase_keyword .goto)
  | ifGoto name => exact .ifGoto (lowercase_keyword .ifGoto)
  | function name n => exact .function (lowercase_keyword .function) (spellsInteger_decimal h.2)
  | call name n => exact .call (lowercase_keyword .call) (spellsInteger_decimal h.2)
  | ret => exact .ret (lowercase_keyword .ret)

/-- The words of an instruction leave none to be ignored. -/
theorem ignored_of_spelling {l : CodeLine} {i : Instruction} (h : l.allWords = spelling i) :
    lowercase l.head.text = i.keyword.text ∧ l.ignored i.keyword = [] := by
  have hhead : spelling i = i.keyword.text :: (spelling i).tail := by cases i <;> rfl
  rw [hhead] at h
  obtain ⟨htext, hops⟩ := List.cons.inj h
  refine ⟨by rw [htext, lowercase_keyword], ?_⟩
  have hlength : l.operands.length = (spelling i).tail.length := by
    rw [← hops, List.length_map]
  cases i with
  | arithmetic op => rfl
  | push seg n => rfl
  | pop seg n => rfl
  | label name => exact List.drop_eq_nil_of_le hlength.le
  | goto name => exact List.drop_eq_nil_of_le hlength.le
  | ifGoto name => exact List.drop_eq_nil_of_le hlength.le
  | function name n => exact List.drop_eq_nil_of_le hlength.le
  | call name n => exact List.drop_eq_nil_of_le hlength.le
  | ret => exact List.length_eq_zero_iff.mp hlength

/-- A line with the words of an instruction reads as it, without a warning. -/
theorem read_of_spelling {l : CodeLine} {i : Instruction} (h : l.allWords = spelling i)
    (hi : Readable i) : l.read = ⟨.ok ⟨i, l.span⟩, []⟩ := by
  have hresult : l.read.result = .ok ⟨i, l.span⟩ := CodeLine.read_of_spells (h ▸ spells_spelling hi)
  have hwarnings : l.read.warnings = [] := by
    obtain ⟨hhead, hignored⟩ := ignored_of_spelling h
    simp only [CodeLine.read, hhead, Keyword.ofText?_text, hignored]
    rfl
  rw [← hresult, ← hwarnings]

/-! ## The line of an instruction -/

/-- The name that the line of an instruction ends with. -/
def lastName? : Instruction → Option String
  | .label name | .goto name | .ifGoto name => some name
  | _ => none

/-- The instruction can be printed and read back. -/
structure Printable (i : Instruction) : Prop where
  readable : Readable i
  /-- A name at the end of the line does not end with a blank. -/
  lastName : ∀ name ∈ lastName? i, ∀ c ∈ name.toList.getLast?, isBlank c = false

/-- The tests that decide whether a word is plain. -/
theorem plainName_iff {w : String} :
    (w ≠ "" ∧ (w.toList.all fun c => !isSeparator c) = true ∧ NoComment w.toList) ↔
      PlainName w := by
  rw [List.all_eq_true]
  constructor
  · rintro ⟨hne, hseparator, hcomment⟩
    exact ⟨hne, fun c hc => by simpa using hseparator c hc, hcomment⟩
  · rintro ⟨hne, hseparator, hcomment⟩
    exact ⟨hne, fun c hc => by simpa using hseparator c hc, hcomment⟩

instance (w : String) : Decidable (PlainName w) :=
  decidable_of_iff _ plainName_iff

instance : (i : Instruction) → Decidable (Readable i)
  | .arithmetic _ | .ret => .isTrue trivial
  | .push seg n => inferInstanceAs (Decidable (n.toNat ≤ seg.maxIndex))
  | .pop seg n => inferInstanceAs (Decidable (seg ≠ .constant ∧ n.toNat ≤ seg.maxIndex))
  | .label name | .goto name | .ifGoto name => inferInstanceAs (Decidable (PlainName name))
  | .function name n | .call name n =>
    inferInstanceAs (Decidable (PlainName name ∧ n.toNat ≤ Word.maxLoadable))

/-- The tests that decide whether an instruction is printable. -/
theorem printable_iff {i : Instruction} :
    (Readable i ∧
      ((lastName? i).all fun name => name.toList.getLast?.all fun c => !isBlank c) = true) ↔
      Printable i := by
  have hblank :
      (((lastName? i).all fun name => name.toList.getLast?.all fun c => !isBlank c) = true) ↔
      ∀ name ∈ lastName? i, ∀ c ∈ name.toList.getLast?, isBlank c = false := by
    cases lastName? i with
    | none => simp
    | some name => cases h : name.toList.getLast? <;> simp [h]
  rw [hblank]
  exact ⟨fun h => ⟨h.1, h.2⟩, fun h => ⟨h.readable, h.lastName⟩⟩

instance (i : Instruction) : Decidable (Printable i) :=
  decidable_of_iff _ printable_iff

/-- A keyword does not begin with a blank. -/
theorem isBlank_head_keyword (k : Keyword) : ∀ c ∈ k.text.toList.head?, isBlank c = false := by
  cases k with
  | operator op => cases op <;> rintro c ⟨⟩ <;> rfl
  | _ =>
      rintro c ⟨⟩
      rfl

/-- The text of an instruction does not start with a blank. -/
theorem isBlank_head_text (i : Instruction) : ∀ c ∈ i.text.toList.head?, isBlank c = false := by
  have hhead : spelling i = i.keyword.text :: (spelling i).tail := by cases i <;> rfl
  rw [toList_text, hhead, head?_spaced (plainName_keyword _).ne_empty]
  exact isBlank_head_keyword i.keyword

namespace Printable

variable {i : Instruction} (h : Printable i)
include h

/-- A printable instruction is spelled with plain words. -/
theorem plainName : ∀ w ∈ spelling i, PlainName w :=
  plainName_spelling h.readable

/-- The text of an instruction that can be printed does not end with a blank. -/
theorem isBlank_getLast : ∀ c ∈ i.text.toList.getLast?, isBlank c = false := by
  have hdecimal : ∀ n, ∀ c ∈ (Decimal.text n).toList.getLast?, isBlank c = false := by
    intro n
    rw [Decimal.toList_text]
    exact Decimal.isBlank_getLast_append_digits [] n
  obtain ⟨last, hlast⟩ : ∃ last, (spelling i).getLast? = some last := by
    cases i <;> exact ⟨_, rfl⟩
  have hmem := List.mem_of_getLast? hlast
  rw [toList_text, getLast?_spaced hlast (h.plainName last hmem).ne_empty]
  cases i with
  | arithmetic op =>
      cases hlast
      cases op <;> rintro c ⟨⟩ <;> rfl
  | ret =>
      cases hlast
      rintro c ⟨⟩
      rfl
  | label name =>
      cases hlast
      exact h.lastName name rfl
  | goto name =>
      cases hlast
      exact h.lastName name rfl
  | ifGoto name =>
      cases hlast
      exact h.lastName name rfl
  | push seg n =>
      cases hlast
      exact hdecimal _
  | pop seg n =>
      cases hlast
      exact hdecimal _
  | function name n =>
      cases hlast
      exact hdecimal _
  | call name n =>
      cases hlast
      exact hdecimal _

/-- Its text holds no comment. -/
theorem noComment : NoComment i.text.toList := by
  rw [toList_text]
  exact noComment_spaced h.plainName

/-- Its text stands on one line. -/
theorem newline_notMem : '\n' ∉ i.text.toList := by
  rw [toList_text]
  exact newline_notMem_spaced h.plainName

/-- The whole text of an instruction is the code of its line. -/
theorem codeOf_line : codeOf (i.text.toList ++ ['\n']) = i.text.toList := by
  rw [codeOf_append_newline, codeOf, beforeComment_of_noComment h.noComment,
    trim_eq_self (isBlank_head_text i) h.isBlank_getLast]

/-- The code of the line starts where the line starts. -/
theorem leading_line : (beforeComment (i.text.toList ++ ['\n'])).takeWhile isBlank = [] := by
  have hne : i.text.toList ≠ [] := by
    intro hnil
    have hwords := words_spaced h.plainName
    rw [← toList_text, hnil, words_nil] at hwords
    cases i <;> cases hwords
  obtain ⟨c, cs, hcs⟩ := List.exists_cons_of_ne_nil hne
  have hblank : isBlank c = false := isBlank_head_text i c (by rw [hcs]; rfl)
  rw [beforeComment_append_newline, if_pos h.noComment, beforeComment_of_noComment h.noComment, hcs]
  exact List.takeWhile_cons_of_neg (by simp [hblank])

/-- **One line.** The line of an instruction is read as the instruction, with a span that covers its
text. -/
theorem read_line (number offset : Nat) (hfit : offset + byteLength i.text.toList < 2 ^ 32) :
    (CodeLine.ofPhysical? number offset (i.text.toList ++ ['\n'])).map CodeLine.read =
      some ⟨.ok ⟨i, Span.ofNat number offset (offset + byteLength i.text.toList)⟩, []⟩ := by
  have hwords := map_text_tokens number offset i.text.toList
  rw [toList_text, words_spaced h.plainName, ← toList_text] at hwords
  unfold CodeLine.ofPhysical?
  rw [h.leading_line, h.codeOf_line]
  simp only [byteLength, Nat.add_zero]
  cases htokens : tokens number offset i.text.toList with
  | nil =>
      rw [htokens] at hwords
      cases i <;> cases hwords
  | cons head operands =>
      rw [htokens] at hwords
      have hspan := CodeLine.span_of_tokens (l := ⟨number, head, operands⟩)
        (fun c hc => isSeparator_of_not_isBlank (isBlank_head_text i c hc))
        (fun c hc => isSeparator_of_not_isBlank (h.isBlank_getLast c hc)) htokens hfit
      have hread := read_of_spelling (l := ⟨number, head, operands⟩) hwords h.readable
      rw [hspan] at hread
      exact congrArg some hread

end Printable

/-! ## Instructions one a line -/

/-- Instructions as text, each on a line of its own. -/
def printed : List Instruction → String
  | [] => ""
  | i :: is => i.text ++ "\n" ++ printed is

/-- Instructions with the spans of their lines, the first of which has a number and an offset. -/
def locatedFrom (number offset : Nat) : List Instruction → List (Located Instruction)
  | [] => []
  | i :: is =>
    ⟨i, Span.ofNat number offset (offset + byteLength i.text.toList)⟩ ::
      locatedFrom (number + 1) (offset + byteLength i.text.toList + 1) is

/-- A printed list begins with the line of its first instruction. -/
theorem toList_printed_cons (i : Instruction) (is : List Instruction) :
    (printed (i :: is)).toList = i.text.toList ++ '\n' :: (printed is).toList := by
  simp [printed, String.toList_append]

/-- **All lines.** What was printed is read back line by line, without a warning. -/
theorem readings_ofLines {is : List Instruction} (h : ∀ i ∈ is, Printable i) (number offset : Nat)
    (hfit : offset + byteLength (printed is).toList < 2 ^ 32) :
    (CodeLine.ofLines number offset (lines (printed is).toList)).map CodeLine.read =
      (locatedFrom number offset is).map fun i => ⟨.ok i, []⟩ := by
  induction is generalizing number offset with
  | nil => rfl
  | cons i is ih =>
      have hi := h i List.mem_cons_self
      have hbytes : byteLength (printed (i :: is)).toList =
          byteLength i.text.toList + 1 + byteLength (printed is).toList := by
        rw [toList_printed_cons, List.append_cons, byteLength_append, byteLength_append]
        rfl
      have hline : offset + byteLength (i.text.toList ++ ['\n']) =
          offset + byteLength i.text.toList + 1 := by
        rw [byteLength_append]
        rfl
      have hread := hi.read_line number offset (by omega)
      have hrest := ih (fun j hj => h j (List.mem_cons_of_mem _ hj)) (number + 1)
        (offset + byteLength i.text.toList + 1) (by omega)
      rw [toList_printed_cons, lines_line hi.newline_notMem, CodeLine.ofLines, List.map_append,
        hline, hrest]
      obtain ⟨l, hl, hlread⟩ := Option.map_eq_some_iff.mp hread
      rw [hl]
      simp only [Option.toList_some, List.map_cons, List.map_nil, hlread, locatedFrom]
      rfl

/-- What a printed text reads as. -/
theorem readings_printed {is : List Instruction} (h : ∀ i ∈ is, Printable i)
    (hfit : byteLength (printed is).toList < 2 ^ 32) :
    readings (printed is) = (locatedFrom 1 0 is).map fun i => ⟨.ok i, []⟩ :=
  readings_ofLines h 1 0 (by omega)

/-- **A printed list is read back**, with the place of every instruction. -/
theorem parse_printed {is : List Instruction} (h : ∀ i ∈ is, Printable i)
    (hfit : byteLength (printed is).toList < 2 ^ 32) :
    parse (printed is) = .ok (locatedFrom 1 0 is) := by
  rw [parse, readings_printed h hfit, List.mapM_map, mapM_eq_ok_iff]
  exact List.forall₂_same.mpr fun i _ => rfl

/-- Places aside, the list is as it was. -/
theorem map_value_locatedFrom (number offset : Nat) (is : List Instruction) :
    (locatedFrom number offset is).map Located.value = is := by
  induction is generalizing number offset with
  | nil => rfl
  | cons i is ih => rw [locatedFrom, List.map_cons, ih]

/-! ## Where the lines stand -/

/-- Lists are printed one behind the other. -/
theorem printed_append (is js : List Instruction) :
    printed (is ++ js) = printed is ++ printed js := by
  induction is with
  | nil => simp [printed]
  | cons i is ih => simp [printed, ih, String.append_assoc]

/-- The `k`th instruction stands on line `k + 1`, behind the text of those before it. -/
theorem getElem?_locatedFrom (number offset : Nat) (is : List Instruction) (k : Nat) :
    (locatedFrom number offset is)[k]? = is[k]?.map fun i =>
      ⟨i, Span.ofNat (number + k) (offset + byteLength (printed (is.take k)).toList)
        (offset + byteLength (printed (is.take k)).toList + byteLength i.text.toList)⟩ := by
  induction is generalizing number offset k with
  | nil => rfl
  | cons i is ih =>
      cases k with
      | zero => simp [locatedFrom, printed, byteLength]
      | succ k =>
          have hbytes : byteLength (printed ((i :: is).take (k + 1))).toList =
              byteLength i.text.toList + 1 + byteLength (printed (is.take k)).toList := by
            rw [List.take_succ_cons, toList_printed_cons, List.append_cons, byteLength_append,
              byteLength_append]
            rfl
          rw [locatedFrom, List.getElem?_cons_succ, List.getElem?_cons_succ, ih, hbytes]
          simp only [Nat.add_assoc, Nat.add_comm 1]

/-- The bytes of a text, counted in its characters. -/
theorem byteLength_toList (s : String) : byteLength s.toList = s.utf8ByteSize := by
  have hlist : ∀ cs : List Char, byteLength cs = (String.ofList cs).utf8ByteSize := by
    intro cs
    induction cs with
    | nil => rfl
    | cons c cs ih =>
        rw [byteLength, ih, String.ofList_cons, String.utf8ByteSize_append,
          String.utf8ByteSize_singleton]
  rw [hlist, String.ofList_toList]

/-- There are at least as many bytes as lines. -/
theorem length_le_printed (is : List Instruction) : is.length ≤ (printed is).utf8ByteSize := by
  induction is with
  | nil => exact Nat.zero_le _
  | cons i is ih =>
      have hnewline : ("\n" : String).utf8ByteSize = 1 := rfl
      rw [printed, String.utf8ByteSize_append, String.utf8ByteSize_append, hnewline,
        List.length_cons]
      omega

/-- The bytes of a text that a span covers. -/
def bytesAt (source : String) (s : Span) : ByteArray :=
  source.toUTF8.extract s.start.toNat s.stop.toNat

/-- A span that counts the bytes before a piece of a text, and up to its end, covers that piece. -/
theorem bytesAt_piece {before piece after : String} {s : Span}
    (hstart : s.start.toNat = before.utf8ByteSize)
    (hstop : s.stop.toNat = before.utf8ByteSize + piece.utf8ByteSize) :
    bytesAt (before ++ piece ++ after) s = piece.toUTF8 := by
  have hleft : (before.toByteArray ++ piece.toByteArray).extract before.utf8ByteSize
      (before.utf8ByteSize + piece.utf8ByteSize) = piece.toByteArray :=
    ByteArray.extract_append_eq_right String.size_toByteArray.symm
      (by rw [String.size_toByteArray, String.size_toByteArray])
  have hsize : (before.toByteArray ++ piece.toByteArray).size =
      before.utf8ByteSize + piece.utf8ByteSize := by
    rw [ByteArray.size_append, String.size_toByteArray, String.size_toByteArray]
  rw [bytesAt, hstart, hstop]
  simp only [String.toUTF8_eq_toByteArray, String.toByteArray_append]
  rw [ByteArray.extract_append, hleft, hsize, Nat.sub_self,
    Nat.sub_eq_zero_of_le (Nat.le_add_right _ _)]
  simp

/-- The place of the `k`th of some printed instructions: its line, and the bytes of its text on that
line. -/
structure StandsAt (is : List Instruction) (k : Nat) (j : Located Instruction) : Prop where
  line : j.span.line.toNat = k + 1
  start : j.span.start.toNat = (printed (is.take k)).utf8ByteSize
  stop : j.span.stop.toNat = (printed (is.take k)).utf8ByteSize + j.value.text.utf8ByteSize
  bytes : bytesAt (printed is) j.span = j.value.text.toUTF8

/-- Every instruction of a printed list stands where its span says. -/
theorem standsAt_locatedFrom {is : List Instruction} (hfit : (printed is).utf8ByteSize < 2 ^ 32)
    {k : Nat} {j : Located Instruction} (hj : (locatedFrom 1 0 is)[k]? = some j) :
    StandsAt is k j := by
  rw [getElem?_locatedFrom] at hj
  obtain ⟨i, hi, rfl⟩ := Option.map_eq_some_iff.mp hj
  -- the text is that of the instructions before, that of this one, and the rest
  have hsplit : printed is =
      printed (is.take k) ++ i.text ++ ("\n" ++ printed (is.drop (k + 1))) := by
    have his : is = is.take k ++ i :: is.drop (k + 1) := by
      obtain ⟨hk, rfl⟩ := List.getElem?_eq_some_iff.mp hi
      rw [← List.drop_eq_getElem_cons hk, List.take_append_drop]
    conv_lhs => rw [his, printed_append, printed]
    simp only [String.append_assoc]
  have hbytes : (printed (is.take k)).utf8ByteSize + i.text.utf8ByteSize ≤
      (printed is).utf8ByteSize := by
    rw [hsplit, String.utf8ByteSize_append, String.utf8ByteSize_append]
    omega
  have hlines : k < (printed is).utf8ByteSize := by
    have := length_le_printed is
    have := (List.getElem?_eq_some_iff.mp hi).1
    omega
  have hnat : ∀ n : Nat, n < 2 ^ 32 → n.toUInt32.toNat = n := fun n hn => by
    simp only [Nat.toUInt32_eq, UInt32.toNat_ofNat', Nat.mod_eq_of_lt hn]
  simp only [Nat.zero_add, byteLength_toList]
  have hstart : (Span.ofNat (1 + k) (printed (is.take k)).utf8ByteSize
      ((printed (is.take k)).utf8ByteSize + i.text.utf8ByteSize)).start.toNat =
      (printed (is.take k)).utf8ByteSize := hnat _ (by omega)
  have hstop : (Span.ofNat (1 + k) (printed (is.take k)).utf8ByteSize
      ((printed (is.take k)).utf8ByteSize + i.text.utf8ByteSize)).stop.toNat =
      (printed (is.take k)).utf8ByteSize + i.text.utf8ByteSize := hnat _ (by omega)
  refine ⟨?_, hstart, hstop, ?_⟩
  · show (1 + k).toUInt32.toNat = k + 1
    rw [hnat _ (by omega), Nat.add_comm]
  · rw [hsplit]
    exact bytesAt_piece hstart hstop

/-- **Printing and reading are inverse.** Instructions that can be printed are read back as they
were, the `k`th on line `k + 1` with a span that covers its text and nothing else, and without a
warning. And whatever the reader gives, from any text, can be printed, but perhaps for a blank at
the end of a label. -/
theorem reading_inverts_printing :
    (∀ is : List Instruction, (∀ i ∈ is, Printable i) → (printed is).utf8ByteSize < 2 ^ 32 →
      ∃ js, parse (printed is) = .ok js ∧ js.map Located.value = is ∧
        (∀ k j, js[k]? = some j → StandsAt is k j) ∧
        (readings (printed is)).flatMap Reading.warnings = []) ∧
    ∀ source js, parse source = .ok js → ∀ j ∈ js, Readable j.value := by
  constructor
  · intro is his hfit
    have hfit' : byteLength (printed is).toList < 2 ^ 32 := by
      rw [byteLength_toList]
      exact hfit
    refine ⟨locatedFrom 1 0 is, parse_printed his hfit', map_value_locatedFrom 1 0 is, ?_, ?_⟩
    · intro k j hj
      exact standsAt_locatedFrom hfit hj
    · rw [readings_printed his hfit', List.flatMap_map]
      simp
  · intro source js hjs j hj
    have hread : (parse source).map (List.map Located.value) = .ok (js.map Located.value) := by
      rw [hjs]
      rfl
    exact readable_of_parse hread j.value (List.mem_map_of_mem hj)

/-- A label with a no-break space inside, a function whose name ends with one, and the largest
numbers. -/
theorem reading_inverts_printing_odd_names :
    (∀ i ∈ [Instruction.function "f/\u00a0" 32767, .label "a\u00a0b", .pop .static 65535,
      .goto "a\u00a0b"],
      Printable i) ∧
    ∃ js, parse (printed [.function "f/\u00a0" 32767, .label "a\u00a0b", .pop .static 65535,
        .goto "a\u00a0b"]) = .ok js ∧
      js.map Located.value = [.function "f/\u00a0" 32767, .label "a\u00a0b", .pop .static 65535,
        .goto "a\u00a0b"] := by
  have hprintable :
      ∀ i ∈ [Instruction.function "f/\u00a0" 32767, .label "a\u00a0b", .pop .static 65535,
      .goto "a\u00a0b"], Printable i := by
    decide +kernel
  obtain ⟨js, hparse, hvalue, -⟩ := reading_inverts_printing.1 _ hprintable (by decide +kernel)
  exact ⟨hprintable, js, hparse, hvalue⟩

end HackVM.Source

import HackVM.Proofs.Source.Locations
import HackVM.Proofs.Source.Sessions

/-!
# Reading one text behind another

What is read of a line depends on nothing but the line, except for where it stands. So a text that
is read behind another one, which ends with a line feed, gives the same results and warnings as on
its own, with every line number and every offset raised (`Shift.past`).

* **What is raised.** `Shifted` is a relation between what is found in a text and what is found of
  the same line further down: spans, words, code lines, errors, results and warnings. It is said in
  natural numbers, so it also says that nothing is cut to 32 bits.
* **Scanning.** The words of a line are shifted (`forall₂_tokens`), and so are the code lines of a
  text (`CodeLine.forall₂_ofLines`), as long as they end before byte 2^32.
* **Reading.** A shifted code line has shifted readings (`CodeLine.Shifted.read`): every error and
  every warning takes its place from the words of the line.

Main statement: `reading_append`.
-/

namespace HackVM

open Text

/-! ## Places further down -/

/-- How far something stands further down: in lines and in bytes. -/
structure Shift where
  lines : Nat
  bytes : Nat
  deriving DecidableEq, Repr

/-- Behind a text that ends with a line feed. -/
def Shift.past (text : String) : Shift :=
  ⟨text.toList.count '\n', text.utf8ByteSize⟩

/-- The span, further down. -/
structure Span.Shifted (shift : Shift) (s t : Span) : Prop where
  line_eq : t.line.toNat = s.line.toNat + shift.lines
  start_eq : t.start.toNat = s.start.toNat + shift.bytes
  stop_eq : t.stop.toNat = s.stop.toNat + shift.bytes

/-- The value, found further down. -/
structure Located.Shifted (shift : Shift) {α : Type} (i j : Located α) : Prop where
  value_eq : j.value = i.value
  span : i.span.Shifted shift j.span

/-- The error, further down. Its message names the line. -/
structure SyntaxError.Shifted (shift : Shift) (e f : SyntaxError) : Prop where
  fault_eq : f.fault = e.fault
  span : e.span.Shifted shift f.span
  message_eq : f.message =
    "syntax error (line " ++ Decimal.text (e.span.line.toNat + shift.lines) ++ "): " ++
      e.fault.message

/-- The wording of a warning about the words that a command ignores. -/
def ignoringText (keyword : String) (line : Nat) : String :=
  "ignoring trailing text after `" ++ keyword ++ "` (line " ++ Decimal.text line ++ ")"

/-- The wording tells keywords apart. -/
theorem ignoringText_injective {keyword keyword' : String} {line : Nat}
    (h : ignoringText keyword line = ignoringText keyword' line) : keyword = keyword' := by
  unfold ignoringText at h
  rwa [String.append_left_inj, String.append_left_inj, String.append_left_inj,
    String.append_right_inj] at h

/-- The warning, further down. Its message names the line. -/
structure Diagnostic.Shifted (shift : Shift) (c d : Diagnostic) : Prop where
  severity_eq : d.severity = c.severity
  span : c.span.Shifted shift d.span
  message_eq : ∃ keyword, c.message = ignoringText keyword c.span.line.toNat ∧
    d.message = ignoringText keyword (c.span.line.toNat + shift.lines)
  notes_eq : d.notes = c.notes
  help_eq : d.help = c.help

/-- What came of something that may fail, further down. -/
inductive Shift.Results (shift : Shift) {α : Type} (R : α → α → Prop) :
    Except SyntaxError α → Except SyntaxError α → Prop
  | ok {a b : α} (h : R a b) : Results shift R (.ok a) (.ok b)
  | error {e f : SyntaxError} (h : e.Shifted shift f) : Results shift R (.error e) (.error f)

variable {shift : Shift}

/-- The smallest span that covers two spans is shifted with them. -/
theorem Span.Shifted.merge {s s' t t' : Span} (hs : s.Shifted shift s') (ht : t.Shifted shift t') :
    (s.merge t).Shifted shift (s'.merge t') := by
  have hmin (x y : UInt32) : (if x ≤ y then x else y).toNat = min x.toNat y.toNat := by
    split_ifs with h <;> rw [UInt32.le_iff_toNat_le] at h <;> omega
  have hmax (x y : UInt32) : (if x ≤ y then y else x).toNat = max x.toNat y.toNat := by
    split_ifs with h <;> rw [UInt32.le_iff_toNat_le] at h <;> omega
  constructor
  · show (if s'.line ≤ t'.line then s'.line else t'.line).toNat =
      (if s.line ≤ t.line then s.line else t.line).toNat + shift.lines
    rw [hmin, hmin, hs.line_eq, ht.line_eq, Nat.add_min_add_right]
  · show (if s'.start ≤ t'.start then s'.start else t'.start).toNat =
      (if s.start ≤ t.start then s.start else t.start).toNat + shift.bytes
    rw [hmin, hmin, hs.start_eq, ht.start_eq, Nat.add_min_add_right]
  · show (if s'.stop ≤ t'.stop then t'.stop else s'.stop).toNat =
      (if s.stop ≤ t.stop then t.stop else s.stop).toNat + shift.bytes
    rw [hmax, hmax, hs.stop_eq, ht.stop_eq, Nat.add_max_add_right]

/-- There is only one such span. -/
theorem Span.Shifted.eq {s t : Span} (h : s.Shifted shift t) :
    t = Span.ofNat (s.line.toNat + shift.lines) (s.start.toNat + shift.bytes)
      (s.stop.toNat + shift.bytes) := by
  have hkept (x : UInt32) : x.toNat.toUInt32 = x := UInt32.ofNat_toNat
  rw [← h.line_eq, ← h.start_eq, ← h.stop_eq, Span.ofNat, hkept, hkept, hkept]

/-- A failure is moved with its place. -/
theorem SyntaxError.shifted_mk {s t : Span} (h : s.Shifted shift t) (fault : SyntaxFault) :
    (SyntaxError.mk fault s).Shifted shift ⟨fault, t⟩ := by
  refine ⟨rfl, h, ?_⟩
  exact congrArg (fun line => "syntax error (line " ++ Decimal.text line ++ "): " ++ fault.message)
    h.line_eq

/-- So is a warning about ignored text, whose wording holds the line. -/
theorem Diagnostic.shifted_ignoring {s t : Span} (h : s.Shifted shift t) (keyword note : String) :
    ((Diagnostic.warning (ignoringText keyword s.line.toNat) s).withNote note).Shifted shift
      ((Diagnostic.warning (ignoringText keyword t.line.toNat) t).withNote note) := by
  dsimp only [Diagnostic.warning, Diagnostic.withNote]
  exact ⟨rfl, h, ⟨keyword, rfl, congrArg (ignoringText keyword) h.line_eq⟩, rfl, rfl⟩

namespace Shift.Results

variable {α β : Type} {R : α → α → Prop} {Q : β → β → Prop} {x y : Except SyntaxError α}

/-- Moved results stay moved if what is done with them next keeps moved results moved. -/
theorem bind (h : shift.Results R x y) {f g : α → Except SyntaxError β}
    (hnext : ∀ a b, R a b → shift.Results Q (f a) (g b)) : shift.Results Q (x >>= f) (y >>= g) := by
  rcases h with hab | herror
  · exact hnext _ _ hab
  · exact .error herror

theorem map (h : shift.Results R x y) {f g : α → β} (hnext : ∀ a b, R a b → Q (f a) (g b)) :
    shift.Results Q (x.map f) (y.map g) := by
  rcases h with hab | herror
  · exact .ok (hnext _ _ hab)
  · exact .error herror

end Shift.Results

end HackVM

namespace HackVM.Text

/-! ## Lines of one text behind another -/

/-- The text is empty or ends with a line feed. -/
def EndsLine (cs : List Char) : Prop :=
  cs = [] ∨ cs.getLast? = some '\n'

/-- A text that ends its line is empty or has a line feed at its end. -/
theorem EndsLine.eq_append {cs : List Char} (h : EndsLine cs) :
    cs = [] ∨ ∃ front, cs = front ++ ['\n'] := by
  rcases h with h | h
  · exact .inl h
  · exact .inr (List.getLast?_eq_some_iff.mp h)

/-- Behind the end of a line begins a new one. -/
theorem lines_append {cs : List Char} (h : EndsLine cs) (ds : List Char) :
    lines (cs ++ ds) = lines cs ++ lines ds := by
  rcases h.eq_append with rfl | ⟨front, rfl⟩
  · rfl
  · rw [List.append_assoc, List.singleton_append, lines_append_newline]

/-- A text that ends with a line feed has as many lines as line feeds. -/
theorem length_lines {cs : List Char} (h : EndsLine cs) : (lines cs).length = cs.count '\n' := by
  rcases h.eq_append with rfl | ⟨front, rfl⟩
  · rfl
  · clear h
    induction hlength : front.length using Nat.strongRecOn generalizing front with
    | ind n ih =>
        rcases line_cases front with hfront | ⟨line, rest, hline, rfl⟩
        · rw [lines_line hfront [], List.count_append, List.count_eq_zero_of_not_mem hfront]
          rfl
        · have hlt : rest.length < n := by
            rw [← hlength, List.length_append, List.length_cons]
            omega
          have hcount : (line ++ '\n' :: (rest ++ ['\n'])).count '\n' =
              (rest ++ ['\n']).count '\n' + 1 := by
            rw [List.count_append, List.count_eq_zero_of_not_mem hline, List.count_cons_self,
              Nat.zero_add]
          rw [List.append_assoc, List.cons_append, lines_line hline, List.length_cons,
            ih _ hlt rest rfl, hcount]

/-- There are no more lines than characters. -/
theorem length_lines_le (cs : List Char) : (lines cs).length ≤ cs.length := by
  induction cs with
  | nil => exact Nat.le_refl _
  | cons c cs ih =>
      rw [lines, List.length_cons]
      split
      · exact Nat.succ_le_succ ih
      · split
        · exact Nat.succ_le_succ (Nat.zero_le _)
        · next hlines =>
            rw [hlines, List.length_cons] at ih
            rw [List.length_cons]
            omega

end HackVM.Text

namespace HackVM.Source

open Text

/-! ## Scanning further down -/

/-- The word, further down. -/
structure Token.Shifted (shift : Shift) (t u : Token) : Prop where
  text_eq : u.text = t.text
  span : t.span.Shifted shift u.span

/-- The code line, further down. -/
structure CodeLine.Shifted (shift : Shift) (l m : CodeLine) : Prop where
  head : l.head.Shifted shift m.head
  operands : List.Forall₂ (Token.Shifted shift) l.operands m.operands

variable {shift : Shift}

/-- Numbers below 2^32 are kept as they are. -/
theorem Span.shifted_ofNat {line start stop : Nat} (hline : line + shift.lines < 2 ^ 32)
    (hstart : start ≤ stop) (hstop : stop + shift.bytes < 2 ^ 32) :
    (Span.ofNat line start stop).Shifted shift
      (Span.ofNat (line + shift.lines) (start + shift.bytes) (stop + shift.bytes)) := by
  have hkept {n : Nat} (h : n < 2 ^ 32) : n.toUInt32.toNat = n := UInt32.toNat_ofNat_of_lt' h
  constructor
  · show (line + shift.lines).toUInt32.toNat = line.toUInt32.toNat + shift.lines
    rw [hkept hline, hkept (by omega)]
  · show (start + shift.bytes).toUInt32.toNat = start.toUInt32.toNat + shift.bytes
    rw [hkept (by omega), hkept (by omega)]
  · show (stop + shift.bytes).toUInt32.toNat = stop.toUInt32.toNat + shift.bytes
    rw [hkept hstop, hkept (by omega)]

/-- The words of a text that ends before byte 2^32 are shifted with it. -/
theorem forall₂_tokens {line : Nat} (hline : line + shift.lines < 2 ^ 32) (offset : Nat)
    (cs : List Char) (hfit : offset + byteLength cs + shift.bytes < 2 ^ 32) :
    List.Forall₂ (Token.Shifted shift) (tokens line offset cs)
      (tokens (line + shift.lines) (offset + shift.bytes) cs) := by
  fun_induction tokens line offset cs with
  | case1 offset cs hdrop =>
      rw [tokens]
      split
      · exact .nil
      · next hcons => cases hdrop.symm.trans hcons
  | case2 offset cs c rest hdrop start word stop ih =>
      -- the text is what is skipped, the word, and what is left
      have hbytes : byteLength cs = byteLength (cs.takeWhile isSeparator) +
          byteLength (c :: rest.takeWhile fun d => !isSeparator d) +
          byteLength (rest.dropWhile fun d => !isSeparator d) := by
        rw [← byteLength_append, ← byteLength_append, List.append_assoc, List.cons_append,
          List.takeWhile_append_dropWhile, ← hdrop, List.takeWhile_append_dropWhile]
      have hstart : start = offset + byteLength (cs.takeWhile isSeparator) := rfl
      have hstop : stop = start + byteLength (c :: rest.takeWhile fun d => !isSeparator d) := rfl
      have hstart' : offset + shift.bytes + byteLength (cs.takeWhile isSeparator) =
          start + shift.bytes := by
        omega
      have hstop' : start + shift.bytes + byteLength (c :: rest.takeWhile fun d => !isSeparator d) =
          stop + shift.bytes := by
        omega
      rw [tokens_eq_cons hdrop, hstart', hstop']
      refine .cons ⟨rfl, ?_⟩ (ih (by omega))
      exact Span.shifted_ofNat hline (by omega) (by omega)

/-- A code line is shifted with its physical line. -/
theorem CodeLine.forall₂_ofPhysical? {number : Nat} (hnumber : number + shift.lines < 2 ^ 32)
    {offset : Nat} {line : List Char} (hfit : offset + byteLength line + shift.bytes < 2 ^ 32) :
    List.Forall₂ (CodeLine.Shifted shift) (ofPhysical? number offset line).toList
      (ofPhysical? (number + shift.lines) (offset + shift.bytes) line).toList := by
  obtain ⟨tail, htail⟩ := exists_eq_codeOf_append line
  have hbytes : byteLength line = byteLength ((beforeComment line).takeWhile isBlank) +
      byteLength (codeOf line) + byteLength tail := by
    conv_lhs => rw [htail]
    rw [byteLength_append, byteLength_append]
  have hwords := forall₂_tokens hnumber
    (offset + byteLength ((beforeComment line).takeWhile isBlank)) (codeOf line) (by omega)
  rw [Nat.add_right_comm] at hwords
  dsimp only [ofPhysical?]
  generalize tokens number _ (codeOf line) = words at hwords ⊢
  generalize tokens (number + shift.lines) _ (codeOf line) = moved at hwords ⊢
  rcases hwords with _ | ⟨hhead, hoperands⟩
  · exact .nil
  · exact .cons ⟨hhead, hoperands⟩ .nil

/-- The code lines of a text that ends before byte 2^32 are shifted with it. -/
theorem CodeLine.forall₂_ofLines {number offset : Nat} {ls : List (List Char)}
    (hnumber : number + ls.length + shift.lines ≤ 2 ^ 32)
    (hfit : offset + byteLength ls.flatten + shift.bytes < 2 ^ 32) :
    List.Forall₂ (CodeLine.Shifted shift) (ofLines number offset ls)
      (ofLines (number + shift.lines) (offset + shift.bytes) ls) := by
  induction ls generalizing number offset with
  | nil => exact .nil
  | cons line rest ih =>
      rw [List.length_cons] at hnumber
      rw [List.flatten_cons, byteLength_append] at hfit
      have hrest := @ih (number + 1) (offset + byteLength line) (by omega) (by omega)
      rw [Nat.add_right_comm, Nat.add_right_comm offset] at hrest
      exact List.rel_append (forall₂_ofPhysical? (by omega) (by omega)) hrest

/-! ## Reading further down -/

variable {l m : CodeLine} {t u : Token}

/-- A failure at a moved word is moved. -/
theorem Token.Shifted.fault (h : t.Shifted shift u) (kind : String → SyntaxFault) :
    (t.fault kind).Shifted shift (u.fault kind) := by
  unfold Token.fault
  rw [h.text_eq]
  exact SyntaxError.shifted_mk h.span _

/-- A moved word is read as the same number, or fails at its new place. -/
theorem Token.Shifted.integer (h : t.Shifted shift u) (limit : Nat) :
    shift.Results Eq (t.integer limit) (u.integer limit) := by
  unfold Token.integer
  rw [h.text_eq]
  split
  · split_ifs
    · exact .ok rfl
    · exact .error (h.fault _)
  · exact .error (h.fault _)

/-- A moved word is read as the same segment, or fails at its new place. -/
theorem Token.Shifted.segment (h : t.Shifted shift u) :
    shift.Results Eq t.segment u.segment := by
  unfold Token.segment
  rw [h.text_eq]
  split
  · exact .ok rfl
  · exact .error (h.fault _)

namespace CodeLine.Shifted

variable (h : l.Shifted shift m)
include h

/-- A line is shifted as a whole. -/
theorem span : l.span.Shifted shift m.span := by
  have hlast := forall₂_getLast? h.operands
  unfold CodeLine.span
  generalize l.operands.getLast? = last at hlast ⊢
  generalize m.operands.getLast? = last' at hlast ⊢
  rcases hlast with hlast | _
  · exact h.head.span.merge hlast.span
  · exact h.head.span

/-- The failure of a line with too few words is moved with the line. -/
theorem missing : l.missing.Shifted shift m.missing :=
  SyntaxError.shifted_mk h.span _

/-- The operands of a moved `push` or `pop` are the same, up to the place of the first one. -/
theorem transfer :
    shift.Results (fun x y : Token × Segment × Word => x.1.Shifted shift y.1 ∧ y.2 = x.2)
      l.transfer m.transfer := by
  have hoperands := h.operands
  unfold CodeLine.transfer
  generalize l.operands = xs at hoperands ⊢
  generalize m.operands = ys at hoperands ⊢
  rcases hoperands with _ | ⟨hsegment, _ | ⟨hindex, _ | ⟨hextra, -⟩⟩⟩
  · exact .error h.missing
  · exact .error h.missing
  · refine hsegment.segment.bind ?_
    rintro s _ rfl
    refine (hindex.integer s.maxIndex).bind ?_
    rintro n _ rfl
    exact .ok ⟨hsegment, rfl⟩
  · exact .error (hextra.fault _)

/-- A moved `label`, `goto` or `if-goto` has the same target. -/
theorem target : shift.Results Eq l.target m.target := by
  have hoperands := h.operands
  unfold CodeLine.target
  generalize l.operands = xs at hoperands ⊢
  generalize m.operands = ys at hoperands ⊢
  rcases hoperands with _ | ⟨hname, -⟩
  · exact .error h.missing
  · exact .ok hname.text_eq.symm

/-- A moved `function` or `call` has the same name and number. -/
theorem signature : shift.Results Eq l.signature m.signature := by
  have hoperands := h.operands
  unfold CodeLine.signature
  generalize l.operands = xs at hoperands ⊢
  generalize m.operands = ys at hoperands ⊢
  rcases hoperands with _ | ⟨hname, _ | ⟨hcount, -⟩⟩
  · exact .error h.missing
  · exact .error h.missing
  · refine (hcount.integer Word.maxLoadable).bind ?_
    rintro n _ rfl
    exact .ok (congrArg (·, n) hname.text_eq.symm)

/-- **A moved line** is read as the same instruction, or fails at its new place. -/
theorem instruction (k : Keyword) : shift.Results Eq (l.instruction k) (m.instruction k) := by
  cases k with
  | operator op =>
      have hoperands := h.operands
      unfold CodeLine.instruction
      generalize l.operands = xs at hoperands ⊢
      generalize m.operands = ys at hoperands ⊢
      rcases hoperands with _ | ⟨hextra, -⟩
      · exact .ok rfl
      · exact .error (hextra.fault _)
  | push =>
      refine h.transfer.bind ?_
      rintro ⟨_, x⟩ ⟨_, _⟩ ⟨-, rfl⟩
      exact .ok rfl
  | pop =>
      refine h.transfer.bind ?_
      rintro ⟨_, x⟩ ⟨_, _⟩ ⟨hword, rfl⟩
      dsimp only
      split_ifs
      · exact .error (SyntaxError.shifted_mk hword.span _)
      · exact .ok rfl
  | label | goto | ifGoto => exact h.target.map fun a b hab => congrArg _ hab
  | function | call =>
      refine h.signature.bind ?_
      rintro x _ rfl
      exact .ok rfl
  | ret => exact .ok rfl

/-- What a moved line has too many is moved with it. -/
theorem ignored (k : Keyword) :
    List.Forall₂ (Token.Shifted shift) (l.ignored k) (m.ignored k) := by
  cases k with
  | label | goto | ifGoto => exact List.forall₂_drop 1 h.operands
  | function | call => exact List.forall₂_drop 2 h.operands
  | ret => exact h.operands
  | operator | push | pop => exact .nil

/-- The warning about the words that a command ignores. -/
theorem warnings (keyword : String) (k : Keyword) :
    List.Forall₂ (Diagnostic.Shifted shift) (ignoredWarning? keyword (l.ignored k)).toList
      (ignoredWarning? keyword (m.ignored k)).toList := by
  have hignored := h.ignored k
  have hlast := forall₂_getLast? hignored
  unfold ignoredWarning?
  generalize l.ignored k = xs at hignored hlast ⊢
  generalize m.ignored k = ys at hignored hlast ⊢
  rcases hignored with _ | ⟨hfirst, -⟩
  · exact .nil
  · rw [List.getLast?_cons, List.getLast?_cons] at hlast ⊢
    obtain ⟨hlast⟩ := hlast
    exact .cons (Diagnostic.shifted_ignoring (hfirst.span.merge hlast.span) keyword _) .nil

/-- **A line further down reads as it does here**, but for the places. -/
theorem read :
    shift.Results (Located.Shifted shift) l.read.result m.read.result ∧
      List.Forall₂ (Diagnostic.Shifted shift) l.read.warnings m.read.warnings := by
  dsimp only [CodeLine.read]
  rw [h.head.text_eq]
  rcases Keyword.ofText? (lowercase l.head.text) with _ | k
  · exact ⟨.error (SyntaxError.shifted_mk h.head.span _), .nil⟩
  · exact ⟨(h.instruction k).map fun _ _ hi => ⟨hi.symm, h.span⟩, h.warnings _ k⟩

end CodeLine.Shifted

/-! ## Texts -/

/-- Lines behind others are read with the numbers and offsets that those leave. -/
theorem CodeLine.ofLines_append (number offset : Nat) (ls ms : List (List Char)) :
    ofLines number offset (ls ++ ms) =
      ofLines number offset ls ++
        ofLines (number + ls.length) (offset + byteLength ls.flatten) ms := by
  induction ls generalizing number offset with
  | nil => rfl
  | cons line rest ih =>
      rw [List.cons_append, ofLines, ofLines, ih, List.append_assoc, List.length_cons,
        List.flatten_cons, byteLength_append, Nat.add_assoc, Nat.add_assoc, Nat.add_comm 1]

/-- The code lines of a text behind another one are its own, shifted. -/
theorem codeLines_append {s t : String} (hs : EndsLine s.toList)
    (hfit : (s ++ t).utf8ByteSize < 2 ^ 32) :
    ∃ moved, codeLines (s ++ t) = codeLines s ++ moved ∧
      List.Forall₂ (CodeLine.Shifted (Shift.past s)) (codeLines t) moved := by
  have hbytes : byteLength s.toList + byteLength t.toList = (s ++ t).utf8ByteSize := by
    rw [← byteLength_append, ← String.toList_append, byteLength_toList]
  have hcount : s.toList.count '\n' ≤ byteLength s.toList :=
    List.count_le_length.trans (length_le_byteLength _)
  have hlines : (lines t.toList).length ≤ byteLength t.toList :=
    (length_lines_le _).trans (length_le_byteLength _)
  have hpast : Shift.past s = ⟨s.toList.count '\n', byteLength s.toList⟩ := by
    rw [byteLength_toList]
    rfl
  refine ⟨CodeLine.ofLines (1 + s.toList.count '\n') (0 + byteLength s.toList) (lines t.toList), ?_,
    ?_⟩
  · rw [codeLines, String.toList_append, lines_append hs, CodeLine.ofLines_append, length_lines hs,
      flatten_lines]
    rfl
  · rw [hpast]
    apply CodeLine.forall₂_ofLines
    · show 1 + (lines t.toList).length + s.toList.count '\n' ≤ 2 ^ 32
      omega
    · show 0 + byteLength (lines t.toList).flatten + byteLength s.toList < 2 ^ 32
      rw [flatten_lines]
      omega

/-- **Reading is a homomorphism over lines.** Let a text `s` be empty or end with a line feed, and
let a text `t` follow it, both together being shorter than 2^32 bytes. A reader of the whole, read
to the end past lines that cannot be read, gives the results of `s` and then those of `t`, and its
warnings are those of `s` and then those of `t`. Of what comes from `t`, every line number, also in
messages, is raised by the number of line feeds in `s`, every offset by the number of bytes of `s`,
and nothing else is changed. -/
theorem reading_append {s t : String} (hs : EndsLine s.toList)
    (hfit : (s ++ t).utf8ByteSize < 2 ^ 32) :
    ∃ results warnings,
      (Reader.ofSource (s ++ t)).drain.1 = (Reader.ofSource s).drain.1 ++ results ∧
      List.Forall₂ ((Shift.past s).Results (Located.Shifted (Shift.past s)))
        (Reader.ofSource t).drain.1 results ∧
      (Reader.ofSource (s ++ t)).drain.2.takeWarnings.1 =
        (Reader.ofSource s).drain.2.takeWarnings.1 ++ warnings ∧
      List.Forall₂ (Diagnostic.Shifted (Shift.past s))
        (Reader.ofSource t).drain.2.takeWarnings.1 warnings := by
  obtain ⟨moved, hmoved, hshifted⟩ := codeLines_append hs hfit
  have hresults (source : String) := (Reader.drain_ofSource source).1
  have hwarnings (source : String) :
      (Reader.ofSource source).drain.2.takeWarnings.1 =
        (readings source).flatMap Reading.warnings :=
    (Reader.drain_ofSource source).2
  have happend : readings (s ++ t) = readings s ++ moved.map CodeLine.read := by
    rw [readings, hmoved, List.map_append, readings]
  refine ⟨(moved.map CodeLine.read).map Reading.result,
    (moved.map CodeLine.read).flatMap Reading.warnings,
    ?_, ?_, ?_, ?_⟩
  · rw [hresults, hresults, happend, List.map_append]
  · rw [hresults, readings, List.map_map, List.map_map]
    exact List.rel_map (fun _ _ h => h.read.1) hshifted
  · rw [hwarnings, hwarnings, happend, List.flatMap_append]
  · rw [hwarnings, readings, List.flatMap_map, List.flatMap_map]
    exact List.rel_flatMap hshifted fun _ _ h => h.read.2

/-- Behind a line with a character of two bytes and a blank line, twelve bytes in all, a branch with
a word too many is found on line 3 and a command that lacks words on line 4. -/
theorem reading_append_behind_blank_line :
    EndsLine "label é b\n\n".toList ∧
      ("label é b\n\n" ++ "goto a c\nPUSH x").utf8ByteSize < 2 ^ 32 ∧
      ∃ i e d,
        (Reader.ofSource ("label é b\n\n" ++ "goto a c\nPUSH x")).drain.1 =
          (Reader.ofSource "label é b\n\n").drain.1 ++ [.ok i, .error e] ∧
        i = ⟨.goto "a", ⟨3, 12, 20⟩⟩ ∧ e = ⟨.missingArguments, ⟨4, 21, 27⟩⟩ ∧
        (Reader.ofSource ("label é b\n\n" ++ "goto a c\nPUSH x")).drain.2.takeWarnings.1 =
          (Reader.ofSource "label é b\n\n").drain.2.takeWarnings.1 ++ [d] ∧
        d.message = "ignoring trailing text after `goto` (line 3)" ∧ d.span = ⟨3, 19, 20⟩ := by
  have hs : EndsLine "label é b\n\n".toList := .inr (by decide)
  have hfit : ("label é b\n\n" ++ "goto a c\nPUSH x").utf8ByteSize < 2 ^ 32 := by decide +kernel
  have hpast : Shift.past "label é b\n\n" = ⟨2, 12⟩ := by decide +kernel
  have hresults : (readings "goto a c\nPUSH x").map Reading.result =
      [.ok ⟨.goto "a", ⟨1, 0, 8⟩⟩, .error ⟨.missingArguments, ⟨2, 9, 15⟩⟩] := by
    decide +kernel
  have hwarnings : (readings "goto a c\nPUSH x").flatMap Reading.warnings =
      [(Diagnostic.warning "ignoring trailing text after `goto` (line 1)" ⟨1, 7, 8⟩).withNote
        "extra operands have no effect"] := by
    decide +kernel
  obtain ⟨results, warnings, hdrained, hshifted, htaken, hwarned⟩ := reading_append hs hfit
  rw [(Reader.drain_ofSource _).1, hresults, hpast] at hshifted
  have hcollected := (Reader.drain_ofSource "goto a c\nPUSH x").2
  rw [hwarnings] at hcollected
  rw [Reader.takeWarnings, hcollected, hpast] at hwarned
  rcases hshifted with _ | ⟨⟨hgoto⟩, _ | ⟨⟨⟩ | ⟨hpush⟩, ⟨⟩⟩⟩
  rcases hwarned with _ | ⟨hwarning, ⟨⟩⟩
  obtain ⟨keyword, hkeyword, hmessage⟩ := hwarning.message_eq
  have hwording : ignoringText "goto" 1 = "ignoring trailing text after `goto` (line 1)" := by
    decide +kernel
  obtain rfl : "goto" = keyword := ignoringText_injective (hwording.trans hkeyword)
  refine ⟨hs, hfit, _, _, _, hdrained, ?_, ?_, htaken, hmessage.trans (by decide +kernel),
    hwarning.span.eq⟩
  · exact congrArg₂ Located.mk hgoto.value_eq hgoto.span.eq
  · exact congrArg₂ SyntaxError.mk hpush.fault_eq hpush.span.eq

end HackVM.Source

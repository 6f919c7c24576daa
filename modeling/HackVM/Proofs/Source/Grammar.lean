import HackVM.Proofs.Base.Results
import HackVM.Proofs.Source.Words
import HackVM.Source.Reading
import Mathlib.Data.Nat.Digits.Defs

/-!
# The grammar of the source language

What a line of words says, as a relation that knows nothing of the reader.

* `Spells ws i`: the words `ws` are one of the forms of the language, and that form names the
  instruction `i`. Only the first word is compared in lowercase; all others count as they stand.
* `Faults ws f`: the words `ws` are none of the forms, and `f` is the first thing wrong with them,
  in this order: the command, the number of words, the segment, the integer, the pop into
  `constant`.

Every line of words is one or the other (`spells_or_faults`), the reader agrees with both
(`CodeLine.read_of_spells`, `CodeLine.read_of_faults`), and so a text is accepted exactly when each
of its lines is a form of the language, with one instruction for each line in order; otherwise the
reader reports what is wrong with the first line that is none (`parse_iff_grammar`).

Spans are left out here, but for the line that an error names.
-/

namespace HackVM.Source

open Text

/-! ## Integers -/

/-- The number that decimal digits spell, most significant first. -/
def decimalValue (cs : List Char) : Nat :=
  Nat.ofDigits 10 (cs.reverse.map fun c => c.toNat - '0'.toNat)

/-- The word spells the number `n`, which is at most `limit`: it is a run of ASCII digits, of any
length, with that decimal value. -/
structure SpellsInteger (w : String) (limit : Nat) (n : Word) : Prop where
  ne_empty : w ≠ ""
  digits : ∀ c ∈ w.toList, '0' ≤ c ∧ c ≤ '9'
  value : n.toNat = decimalValue w.toList
  bounded : n.toNat ≤ limit

/-- Reading digit by digit gives the value of the digits. -/
theorem ofDigitChars_eq_decimalValue (cs : List Char) :
    Nat.ofDigitChars 10 cs 0 = decimalValue cs := by
  induction cs with
  | nil => rfl
  | cons c cs ih =>
      rw [Nat.ofDigitChars_cons, Nat.ofDigitChars_eq_ofDigitChars_zero, ih, decimalValue,
        decimalValue, List.reverse_cons, List.map_append, Nat.ofDigits_append]
      simp [Nat.ofDigits_cons, Nat.add_comm]

/-- A digit lies between 0 and 9. -/
theorem isDigit_iff {c : Char} : c.isDigit = true ↔ '0' ≤ c ∧ c ≤ '9' := by
  simp [Char.isDigit, Char.le_def, UInt32.le_iff_toNat_le]

/-- Reading a run of characters as a number, said by its digits and its value. -/
theorem read?_eq_some_iff {cs : List Char} {v : Nat} :
    Decimal.read? cs = some v ↔
      cs ≠ [] ∧ (∀ c ∈ cs, '0' ≤ c ∧ c ≤ '9') ∧ v = decimalValue cs := by
  unfold Decimal.read?
  rw [← ofDigitChars_eq_decimalValue]
  constructor
  · intro h
    split_ifs at h with hcs
    simp only [Bool.and_eq_true, Bool.not_eq_true', List.isEmpty_eq_false_iff,
      List.all_eq_true] at hcs
    exact ⟨hcs.1, fun c hc => isDigit_iff.mp (hcs.2 c hc), (Option.some.inj h).symm⟩
  · rintro ⟨hne, hdigits, rfl⟩
    rw [if_pos]
    simpa [hne] using fun c hc => isDigit_iff.mpr (hdigits c hc)

/-- The reader takes a word as a number exactly when it spells one within the limit. -/
theorem Token.integer_eq_ok_iff {t : Token} {limit : Nat} (hlimit : limit ≤ Word.maxUnsigned)
    {n : Word} : t.integer limit = .ok n ↔ SpellsInteger t.text limit n := by
  unfold Token.integer
  constructor
  · intro h
    split at h
    · next v hread =>
        split_ifs at h with hv
        obtain ⟨hne, hdigits, rfl⟩ := read?_eq_some_iff.mp hread
        cases h
        have hmod : (BitVec.ofNat 16 (decimalValue t.text.toList)).toNat =
            decimalValue t.text.toList := by
          rw [BitVec.toNat_ofNat]
          exact Nat.mod_eq_of_lt (by simp only [Word.maxUnsigned] at hlimit; omega)
        exact ⟨fun hnil => hne (by rw [hnil]; rfl), hdigits, hmod, hmod.le.trans hv⟩
    · cases h
  · intro h
    have hread : Decimal.read? t.text.toList = some n.toNat :=
      read?_eq_some_iff.mpr ⟨by simpa using h.ne_empty, h.digits, h.value⟩
    rw [hread]
    simp [h.bounded]

/-- A word that spells no number within the limit is reported as it stands. -/
theorem Token.integer_eq_error {t : Token} {limit : Nat} (hlimit : limit ≤ Word.maxUnsigned)
    (h : ∀ n, ¬ SpellsInteger t.text limit n) :
    t.integer limit = .error (t.fault .malformedInteger) := by
  cases hint : t.integer limit with
  | ok n => exact absurd ((integer_eq_ok_iff hlimit).mp hint) (h n)
  | error e =>
      unfold Token.integer at hint
      split at hint
      · split_ifs at hint
        exact hint.symm
      · exact hint.symm

/-- The largest index of every segment fits a word. -/
theorem maxIndex_le_maxUnsigned (seg : Segment) : seg.maxIndex ≤ Word.maxUnsigned := by
  cases seg <;> decide

/-- So does the largest number that can be loaded. -/
theorem maxLoadable_le_maxUnsigned : Word.maxLoadable ≤ Word.maxUnsigned := by
  decide

/-! ## Forms and faults -/

/-- The forms of a line, and the instruction that each of them names. -/
inductive Spells : List String → Instruction → Prop where
  | arithmetic {head : String} {op : Operator} :
      lowercase head = op.name → Spells [head] (.arithmetic op)
  | push {head index : String} {seg : Segment} {n : Word} :
      lowercase head = "push" → SpellsInteger index seg.maxIndex n →
      Spells [head, seg.name, index] (.push seg n)
  | pop {head index : String} {seg : Segment} {n : Word} :
      lowercase head = "pop" → SpellsInteger index seg.maxIndex n → seg ≠ .constant →
      Spells [head, seg.name, index] (.pop seg n)
  | label {head name : String} {rest : List String} :
      lowercase head = "label" → Spells (head :: name :: rest) (.label name)
  | goto {head name : String} {rest : List String} :
      lowercase head = "goto" → Spells (head :: name :: rest) (.goto name)
  | ifGoto {head name : String} {rest : List String} :
      lowercase head = "if-goto" → Spells (head :: name :: rest) (.ifGoto name)
  | function {head name count : String} {rest : List String} {n : Word} :
      lowercase head = "function" → SpellsInteger count Word.maxLoadable n →
      Spells (head :: name :: count :: rest) (.function name n)
  | call {head name count : String} {rest : List String} {n : Word} :
      lowercase head = "call" → SpellsInteger count Word.maxLoadable n →
      Spells (head :: name :: count :: rest) (.call name n)
  | ret {head : String} {rest : List String} :
      lowercase head = "return" → Spells (head :: rest) .ret

/-- What is wrong with a line that is none of the forms. -/
inductive Faults : List String → SyntaxFault → Prop where
  | notACommand {head : String} {rest : List String} :
      (∀ k : Keyword, k.text ≠ lowercase head) →
        Faults (head :: rest) (.notACommand (lowercase head))
  | operatorExtra {head extra : String} {rest : List String} {op : Operator} :
      lowercase head = op.name → Faults (head :: extra :: rest) (.unknownToken extra)
  | transferExtra {head segment index extra : String} {rest : List String} :
      lowercase head = "push" ∨ lowercase head = "pop" →
      Faults (head :: segment :: index :: extra :: rest) (.unknownToken extra)
  | transferMissing {head : String} {operands : List String} :
      lowercase head = "push" ∨ lowercase head = "pop" → operands.length < 2 →
      Faults (head :: operands) .missingArguments
  | targetMissing {head : String} :
      lowercase head = "label" ∨ lowercase head = "goto" ∨ lowercase head = "if-goto" →
      Faults [head] .missingArguments
  | signatureMissing {head : String} {operands : List String} :
      lowercase head = "function" ∨ lowercase head = "call" → operands.length < 2 →
      Faults (head :: operands) .missingArguments
  | unknownSegment {head segment index : String} :
      lowercase head = "push" ∨ lowercase head = "pop" → (∀ seg : Segment, seg.name ≠ segment) →
      Faults [head, segment, index] (.unknownSegment segment)
  | malformedIndex {head index : String} {seg : Segment} :
      lowercase head = "push" ∨ lowercase head = "pop" →
      (∀ n, ¬ SpellsInteger index seg.maxIndex n) →
      Faults [head, seg.name, index] (.malformedInteger index)
  | popConstant {head index : String} {n : Word} :
      lowercase head = "pop" → SpellsInteger index Word.maxLoadable n →
      Faults [head, "constant", index] .popConstant
  | malformedCount {head name count : String} {rest : List String} :
      lowercase head = "function" ∨ lowercase head = "call" →
      (∀ n, ¬ SpellsInteger count Word.maxLoadable n) →
      Faults (head :: name :: count :: rest) (.malformedInteger count)

/-- A word names a segment or no segment. -/
theorem segment_cases (segment : String) :
    (∃ seg : Segment, segment = seg.name) ∨ ∀ seg : Segment, seg.name ≠ segment := by
  by_cases h : ∃ seg : Segment, segment = seg.name
  · exact .inl h
  · exact .inr fun seg hseg => h ⟨seg, hseg.symm⟩

/-- The words behind `push` or `pop`, when the pair of them is not a form, have a fault. -/
theorem transfer_cases {head : String} (hhead : lowercase head = "push" ∨ lowercase head = "pop")
    (operands : List String) :
    (∃ seg index n, operands = [Segment.name seg, index] ∧ SpellsInteger index seg.maxIndex n) ∨
      ∃ f, Faults (head :: operands) f := by
  match operands with
  | [] => exact .inr ⟨_, .transferMissing hhead (by simp)⟩
  | [_] => exact .inr ⟨_, .transferMissing hhead (by simp)⟩
  | _ :: _ :: _ :: _ => exact .inr ⟨_, .transferExtra hhead⟩
  | [segment, index] =>
      rcases segment_cases segment with ⟨seg, rfl⟩ | hseg
      · by_cases hn : ∃ n, SpellsInteger index seg.maxIndex n
        · obtain ⟨n, hn⟩ := hn
          exact .inl ⟨seg, index, n, rfl, hn⟩
        · exact .inr ⟨_, .malformedIndex hhead (not_exists.mp hn)⟩
      · exact .inr ⟨_, .unknownSegment hhead hseg⟩

/-- The words behind `function` or `call`, when they are not a form, have a fault. -/
theorem signature_cases {head : String}
    (hhead : lowercase head = "function" ∨ lowercase head = "call") (operands : List String) :
    (∃ name count rest n, operands = name :: count :: rest ∧
      SpellsInteger count Word.maxLoadable n) ∨
      ∃ f, Faults (head :: operands) f := by
  match operands with
  | [] => exact .inr ⟨_, .signatureMissing hhead (by simp)⟩
  | [_] => exact .inr ⟨_, .signatureMissing hhead (by simp)⟩
  | name :: count :: rest =>
      by_cases hn : ∃ n, SpellsInteger count Word.maxLoadable n
      · obtain ⟨n, hn⟩ := hn
        exact .inl ⟨name, count, rest, n, rfl, hn⟩
      · exact .inr ⟨_, .malformedCount hhead (not_exists.mp hn)⟩

/-- A line of words is a form of the language, or something is wrong with it. -/
theorem spells_or_faults (head : String) (operands : List String) :
    (∃ i, Spells (head :: operands) i) ∨ ∃ f, Faults (head :: operands) f := by
  by_cases hcommand : ∃ k : Keyword, k.text = lowercase head
  · obtain ⟨k, hk⟩ := hcommand
    cases k with
    | operator op =>
        cases operands with
        | nil => exact .inl ⟨_, .arithmetic hk.symm⟩
        | cons extra rest => exact .inr ⟨_, .operatorExtra hk.symm⟩
    | push =>
        rcases transfer_cases (.inl hk.symm) operands with ⟨seg, index, n, rfl, hn⟩ | hfault
        · exact .inl ⟨_, .push hk.symm hn⟩
        · exact .inr hfault
    | pop =>
        rcases transfer_cases (.inr hk.symm) operands with ⟨seg, index, n, rfl, hn⟩ | hfault
        · by_cases hseg : seg = .constant
          · subst hseg
            exact .inr ⟨_, .popConstant hk.symm hn⟩
          · exact .inl ⟨_, .pop hk.symm hn hseg⟩
        · exact .inr hfault
    | label =>
        cases operands with
        | nil => exact .inr ⟨_, .targetMissing (.inl hk.symm)⟩
        | cons name rest => exact .inl ⟨_, .label hk.symm⟩
    | goto =>
        cases operands with
        | nil => exact .inr ⟨_, .targetMissing (.inr (.inl hk.symm))⟩
        | cons name rest => exact .inl ⟨_, .goto hk.symm⟩
    | ifGoto =>
        cases operands with
        | nil => exact .inr ⟨_, .targetMissing (.inr (.inr hk.symm))⟩
        | cons name rest => exact .inl ⟨_, .ifGoto hk.symm⟩
    | function =>
        rcases signature_cases (.inl hk.symm) operands with ⟨name, count, rest, n, rfl, hn⟩ | hfault
        · exact .inl ⟨_, .function hk.symm hn⟩
        · exact .inr hfault
    | call =>
        rcases signature_cases (.inr hk.symm) operands with ⟨name, count, rest, n, rfl, hn⟩ | hfault
        · exact .inl ⟨_, .call hk.symm hn⟩
        · exact .inr hfault
    | ret => exact .inl ⟨_, .ret hk.symm⟩
  · exact .inr ⟨_, .notACommand (not_exists.mp hcommand)⟩

/-! ## The reader and the grammar -/

namespace CodeLine

/-- All words of the line stand on the line that it names. -/
def OnOneLine (l : CodeLine) : Prop :=
  ∀ t ∈ l.head :: l.operands, t.span.line = l.number.toUInt32

/-- The command of a line stands on it. -/
theorem OnOneLine.head {l : CodeLine} (h : l.OnOneLine) : l.head.span.line = l.number.toUInt32 :=
  h _ List.mem_cons_self

/-- So does every operand. -/
theorem OnOneLine.operand {l : CodeLine} (h : l.OnOneLine) {t : Token} (ht : t ∈ l.operands) :
    t.span.line = l.number.toUInt32 :=
  h _ (List.mem_cons_of_mem _ ht)

/-- So does the line as a whole. -/
theorem OnOneLine.span {l : CodeLine} (h : l.OnOneLine) : l.span.line = l.number.toUInt32 := by
  unfold CodeLine.span
  split
  · exact h.head
  · next last hlast =>
      have hlast : last.span.line = l.number.toUInt32 := h.operand (List.mem_of_getLast? hlast)
      simp only [Span.merge, h.head, hlast]
      exact ite_self _

/-- The operands of a branch: the first of them is the name. -/
theorem target_of_words {l : CodeLine} {name : String} {rest : List String}
    (h : l.operands.map Token.text = name :: rest) : l.target = .ok name := by
  obtain ⟨t, ts, hops, rfl, -⟩ := List.map_eq_cons_iff.mp h
  simp [target, hops]

/-- The operands of a function command: the second of them spells the count, or is at fault. -/
theorem signature_of_words {l : CodeLine} {name count : String} {rest : List String}
    (h : l.operands.map Token.text = name :: count :: rest) :
    (∀ n, SpellsInteger count Word.maxLoadable n → l.signature = .ok (name, n)) ∧
      ((∀ n, ¬ SpellsInteger count Word.maxLoadable n) →
        ∃ t ∈ l.operands, t.text = count ∧ l.signature = .error (t.fault .malformedInteger)) := by
  obtain ⟨t, ts, hops, rfl, hts⟩ := List.map_eq_cons_iff.mp h
  obtain ⟨u, us, rfl, rfl, -⟩ := List.map_eq_cons_iff.mp hts
  constructor
  · intro n hn
    have hint := (Token.integer_eq_ok_iff maxLoadable_le_maxUnsigned).mpr hn
    simp [signature, hops, hint, bind, Except.bind]
  · intro hn
    refine ⟨u, by simp [hops], rfl, ?_⟩
    have hint := Token.integer_eq_error maxLoadable_le_maxUnsigned hn
    simp [signature, hops, hint, bind, Except.bind]

/-- A `function` or `call` with less than two operands misses one. -/
theorem signature_of_length {l : CodeLine} (h : l.operands.length < 2) :
    l.signature = .error l.missing := by
  unfold signature
  split
  · next hops =>
      rw [hops, List.length_cons, List.length_cons] at h
      omega
  · rfl

/-- The operands of `push` and `pop` when there are two of them and the first names a segment. -/
theorem transfer_of_words {l : CodeLine} {seg : Segment} {index : String}
    (h : l.operands.map Token.text = [seg.name, index]) :
    (∀ n, SpellsInteger index seg.maxIndex n →
        ∃ t ∈ l.operands, l.transfer = .ok (t, seg, n)) ∧
      ((∀ n, ¬ SpellsInteger index seg.maxIndex n) →
        ∃ t ∈ l.operands, t.text = index ∧ l.transfer = .error (t.fault .malformedInteger)) := by
  obtain ⟨t, ts, hops, hseg, hts⟩ := List.map_eq_cons_iff.mp h
  obtain ⟨u, us, rfl, rfl, hus⟩ := List.map_eq_cons_iff.mp hts
  obtain rfl := List.map_eq_nil_iff.mp hus
  constructor
  · intro n hn
    refine ⟨t, by simp [hops], ?_⟩
    have hint := (Token.integer_eq_ok_iff (maxIndex_le_maxUnsigned seg)).mpr hn
    simp [transfer, hops, Token.segment, hseg, hint, bind, Except.bind]
  · intro hn
    refine ⟨u, by simp [hops], rfl, ?_⟩
    have hint := Token.integer_eq_error (maxIndex_le_maxUnsigned seg) hn
    simp [transfer, hops, Token.segment, hseg, hint, bind, Except.bind]

/-- The first operand of a `push` or `pop` has to name a segment. -/
theorem transfer_of_unknown {l : CodeLine} {segment index : String}
    (h : l.operands.map Token.text = [segment, index])
    (hseg : ∀ seg : Segment, seg.name ≠ segment) :
    ∃ t ∈ l.operands, t.text = segment ∧ l.transfer = .error (t.fault .unknownSegment) := by
  obtain ⟨t, ts, hops, rfl, hts⟩ := List.map_eq_cons_iff.mp h
  obtain ⟨u, us, rfl, rfl, hus⟩ := List.map_eq_cons_iff.mp hts
  obtain rfl := List.map_eq_nil_iff.mp hus
  refine ⟨t, by simp [hops], rfl, ?_⟩
  have hnone : Segment.ofName? t.text = none :=
    List.find?_eq_none.mpr fun seg _ => by simpa using hseg seg
  simp [transfer, hops, Token.segment, hnone, bind, Except.bind]

/-- A third operand of a `push` or `pop` is one too many. -/
theorem transfer_of_extra {l : CodeLine} {segment index extra : String} {rest : List String}
    (h : l.operands.map Token.text = segment :: index :: extra :: rest) :
    ∃ t ∈ l.operands, t.text = extra ∧ l.transfer = .error (t.fault .unknownToken) := by
  obtain ⟨t, ts, hops, rfl, hts⟩ := List.map_eq_cons_iff.mp h
  obtain ⟨u, us, rfl, rfl, hus⟩ := List.map_eq_cons_iff.mp hts
  obtain ⟨v, vs, rfl, rfl, -⟩ := List.map_eq_cons_iff.mp hus
  exact ⟨v, by simp [hops], rfl, by simp [transfer, hops]⟩

/-- A `push` or `pop` with less than two operands misses one. -/
theorem transfer_of_length {l : CodeLine} (h : l.operands.length < 2) :
    l.transfer = .error l.missing := by
  unfold transfer
  split
  · next hops => simp [hops] at h
  · next hops =>
      rw [hops, List.length_cons, List.length_cons] at h
      omega
  · rfl

/-- A line whose first word is a command reads as the instruction of that command. -/
theorem result_of_keyword {l : CodeLine} {k : Keyword} (h : lowercase l.head.text = k.text) :
    l.read.result = (l.instruction k).map fun i => ⟨i, l.span⟩ := by
  simp only [read, h, Keyword.ofText?_text]

/-- A line of the language reads as the instruction that it spells. -/
theorem read_of_spells {l : CodeLine} {i : Instruction} (h : Spells l.allWords i) :
    l.read.result = .ok ⟨i, l.span⟩ := by
  generalize hws : l.allWords = ws at h
  cases h with
  | @arithmetic _ op hhead =>
      obtain ⟨rfl, hnil⟩ := List.cons.inj hws
      rw [result_of_keyword (k := .operator op) hhead]
      simp [instruction, List.map_eq_nil_iff.mp hnil, Except.map]
  | @push _ _ seg n hhead hn =>
      obtain ⟨rfl, hops⟩ := List.cons.inj hws
      obtain ⟨t, -, htransfer⟩ := (transfer_of_words hops).1 n hn
      rw [result_of_keyword (k := .push) hhead]
      simp [instruction, htransfer, bind, Except.bind, Except.map]
  | @pop _ _ seg n hhead hn hconst =>
      obtain ⟨rfl, hops⟩ := List.cons.inj hws
      obtain ⟨t, -, htransfer⟩ := (transfer_of_words hops).1 n hn
      rw [result_of_keyword (k := .pop) hhead]
      simp [instruction, htransfer, hconst, bind, Except.bind, Except.map]
  | label hhead =>
      obtain ⟨rfl, hops⟩ := List.cons.inj hws
      rw [result_of_keyword (k := .label) hhead, instruction, target_of_words hops]
      rfl
  | goto hhead =>
      obtain ⟨rfl, hops⟩ := List.cons.inj hws
      rw [result_of_keyword (k := .goto) hhead, instruction, target_of_words hops]
      rfl
  | ifGoto hhead =>
      obtain ⟨rfl, hops⟩ := List.cons.inj hws
      rw [result_of_keyword (k := .ifGoto) hhead, instruction, target_of_words hops]
      rfl
  | @function _ _ _ _ n hhead hn =>
      obtain ⟨rfl, hops⟩ := List.cons.inj hws
      rw [result_of_keyword (k := .function) hhead, instruction, (signature_of_words hops).1 n hn]
      rfl
  | @call _ _ _ _ n hhead hn =>
      obtain ⟨rfl, hops⟩ := List.cons.inj hws
      rw [result_of_keyword (k := .call) hhead, instruction, (signature_of_words hops).1 n hn]
      rfl
  | ret hhead =>
      obtain ⟨rfl, -⟩ := List.cons.inj hws
      rw [result_of_keyword (k := .ret) hhead]
      rfl

/-- A fault in the operands of `push` or `pop` is the fault of the line. -/
theorem result_of_transfer_error {l : CodeLine} {e : SyntaxError}
    (hhead : lowercase l.head.text = "push" ∨ lowercase l.head.text = "pop")
    (h : l.transfer = .error e) : l.read.result = .error e := by
  rcases hhead with hhead | hhead
  · rw [result_of_keyword (k := .push) hhead, instruction, h]
    rfl
  · rw [result_of_keyword (k := .pop) hhead, instruction, h]
    rfl

/-- A fault in the operands of `function` or `call` is the fault of the line. -/
theorem result_of_signature_error {l : CodeLine} {e : SyntaxError}
    (hhead : lowercase l.head.text = "function" ∨ lowercase l.head.text = "call")
    (h : l.signature = .error e) : l.read.result = .error e := by
  rcases hhead with hhead | hhead
  · rw [result_of_keyword (k := .function) hhead, instruction, h]
    rfl
  · rw [result_of_keyword (k := .call) hhead, instruction, h]
    rfl

/-- A line that is not of the language reads as the error for what is wrong with it. -/
theorem read_of_faults {l : CodeLine} {f : SyntaxFault} (hline : l.OnOneLine)
    (h : Faults l.allWords f) :
    ∃ e, l.read.result = .error e ∧ e.fault = f ∧ e.span.line = l.number.toUInt32 := by
  generalize hws : l.allWords = ws at h
  cases h with
  | notACommand hnone =>
      obtain ⟨rfl, -⟩ := List.cons.inj hws
      have hlookup : Keyword.ofText? (lowercase l.head.text) = none :=
        List.find?_eq_none.mpr fun k _ => by simpa using hnone k
      exact ⟨_, by simp only [read, hlookup]; rfl, rfl, hline.head⟩
  | @operatorExtra _ _ _ op hhead =>
      obtain ⟨rfl, hextra⟩ := List.cons.inj hws
      obtain ⟨t, ts, hops, rfl, -⟩ := List.map_eq_cons_iff.mp hextra
      refine ⟨t.fault .unknownToken, ?_, rfl, hline.operand (by simp [hops])⟩
      rw [result_of_keyword (k := .operator op) hhead]
      simp [instruction, hops, Except.map]
  | transferExtra hhead =>
      obtain ⟨rfl, hops⟩ := List.cons.inj hws
      obtain ⟨t, ht, rfl, htransfer⟩ := transfer_of_extra hops
      exact ⟨_, result_of_transfer_error hhead htransfer, rfl, hline.operand ht⟩
  | transferMissing hhead hlen =>
      obtain ⟨rfl, rfl⟩ := List.cons.inj hws
      have htransfer := transfer_of_length (l := l) (by simpa using hlen)
      exact ⟨_, result_of_transfer_error hhead htransfer, rfl, hline.span⟩
  | targetMissing hhead =>
      obtain ⟨rfl, hnil⟩ := List.cons.inj hws
      have htarget : l.target = .error l.missing := by
        simp [target, List.map_eq_nil_iff.mp hnil]
      refine ⟨l.missing, ?_, rfl, hline.span⟩
      rcases hhead with hhead | hhead | hhead
      · rw [result_of_keyword (k := .label) hhead, instruction, htarget]
        rfl
      · rw [result_of_keyword (k := .goto) hhead, instruction, htarget]
        rfl
      · rw [result_of_keyword (k := .ifGoto) hhead, instruction, htarget]
        rfl
  | signatureMissing hhead hlen =>
      obtain ⟨rfl, rfl⟩ := List.cons.inj hws
      have hsignature := signature_of_length (l := l) (by simpa using hlen)
      exact ⟨_, result_of_signature_error hhead hsignature, rfl, hline.span⟩
  | unknownSegment hhead hseg =>
      obtain ⟨rfl, hops⟩ := List.cons.inj hws
      obtain ⟨t, ht, rfl, htransfer⟩ := transfer_of_unknown hops hseg
      exact ⟨_, result_of_transfer_error hhead htransfer, rfl, hline.operand ht⟩
  | malformedIndex hhead hn =>
      obtain ⟨rfl, hops⟩ := List.cons.inj hws
      obtain ⟨t, ht, rfl, htransfer⟩ := (transfer_of_words hops).2 hn
      exact ⟨_, result_of_transfer_error hhead htransfer, rfl, hline.operand ht⟩
  | @popConstant _ _ n hhead hn =>
      obtain ⟨rfl, hops⟩ := List.cons.inj hws
      obtain ⟨t, ht, htransfer⟩ := (@transfer_of_words _ .constant _ hops).1 n hn
      refine ⟨⟨.popConstant, t.span⟩, ?_, rfl, hline.operand ht⟩
      rw [result_of_keyword (k := .pop) hhead]
      simp [instruction, htransfer, bind, Except.bind, Except.map]
  | malformedCount hhead hn =>
      obtain ⟨rfl, hops⟩ := List.cons.inj hws
      obtain ⟨t, ht, rfl, hsignature⟩ := (signature_of_words hops).2 hn
      exact ⟨_, result_of_signature_error hhead hsignature, rfl, hline.operand ht⟩

/-- What a line reads as is what it spells. -/
theorem spells_of_read {l : CodeLine} {i : Located Instruction} (hline : l.OnOneLine)
    (h : l.read.result = .ok i) : Spells l.allWords i.value := by
  rcases spells_or_faults l.head.text (l.operands.map Token.text) with ⟨j, hj⟩ | ⟨f, hf⟩
  · rw [read_of_spells hj] at h
    cases h
    exact hj
  · obtain ⟨e, he, -⟩ := read_of_faults hline hf
    rw [he] at h
    cases h

/-- The error that a line reads as says what is wrong with it, and names its line. -/
theorem faults_of_read {l : CodeLine} {e : SyntaxError} (hline : l.OnOneLine)
    (h : l.read.result = .error e) :
    Faults l.allWords e.fault ∧ e.span.line = l.number.toUInt32 := by
  rcases spells_or_faults l.head.text (l.operands.map Token.text) with ⟨j, hj⟩ | ⟨f, hf⟩
  · rw [read_of_spells hj] at h
    cases h
  · obtain ⟨e', he', rfl, hspan⟩ := read_of_faults hline hf
    rw [he'] at h
    cases h
    exact ⟨hf, hspan⟩

/-- The words of a line of code stand on that line. -/
theorem onOneLine_of_mem_ofLines {number offset : Nat} {ls : List (List Char)} {l : CodeLine}
    (hl : l ∈ ofLines number offset ls) : l.OnOneLine := by
  induction ls generalizing number offset with
  | nil => cases hl
  | cons line ls ih =>
      rcases List.mem_append.mp hl with hl | hl
      · have hl := Option.mem_toList.mp hl
        rw [ofPhysical?] at hl
        split at hl
        · cases hl
        · next head operands htokens =>
            cases hl
            intro t ht
            exact span_line_of_mem_tokens (htokens ▸ ht)
      · exact ih hl

end CodeLine

/-- Every code line of a text has its words on one line. -/
theorem onOneLine_of_mem_codeLines {source : String} {l : CodeLine} (hl : l ∈ codeLines source) :
    l.OnOneLine :=
  CodeLine.onOneLine_of_mem_ofLines hl

/-! ## Reading to the first error -/

/-- A source is read line by line, up to the first that fails. -/
theorem parse_eq_mapM (source : String) :
    parse source = (codeLines source).mapM fun l => l.read.result := by
  rw [parse, readings, List.mapM_map]
  rfl

/-- The reader and the grammar agree on every item of a list of lines, so they agree on the list. -/
theorem forall₂_spells_iff {ls : List CodeLine} (hls : ∀ l ∈ ls, l.OnOneLine)
    {is : List Instruction} :
    List.Forall₂ (fun l i => l.read.result.map Located.value = .ok i) ls is ↔
      List.Forall₂ (fun l i => Spells l.allWords i) ls is := by
  constructor
  · intro h
    refine ((List.forall₂_and_left ls is).mpr ⟨hls, h⟩).imp ?_
    rintro l i ⟨hline, hread⟩
    cases hresult : l.read.result with
    | error e =>
        rw [hresult] at hread
        cases hread
    | ok j =>
        rw [hresult] at hread
        cases hread
        exact CodeLine.spells_of_read hline hresult
  · intro h
    refine h.imp fun l i hspells => ?_
    rw [CodeLine.read_of_spells hspells]
    rfl

/-- A text reads as a list of instructions when its lines spell them, one each and in order. -/
theorem parse_eq_ok_iff (source : String) (is : List Instruction) :
    (parse source).map (List.map Located.value) = .ok is ↔
      List.Forall₂ (fun line i => Spells line.2 i) (numberedWords source) is := by
  rw [← map_codeLines, List.forall₂_map_left_iff, parse_eq_mapM, map_mapM, mapM_eq_ok_iff,
    forall₂_spells_iff fun l hl => onOneLine_of_mem_codeLines hl]

/-- What the reader promises of an instruction: numbers within their limits, names that are plain,
and no pop into `constant`. -/
def Readable : Instruction → Prop
  | .arithmetic _ | .ret => True
  | .push seg n => n.toNat ≤ seg.maxIndex
  | .pop seg n => seg ≠ .constant ∧ n.toNat ≤ seg.maxIndex
  | .label name | .goto name | .ifGoto name => PlainName name
  | .function name n | .call name n => PlainName name ∧ n.toNat ≤ Word.maxLoadable

/-- What plain words spell is readable. -/
theorem Spells.readable {ws : List String} {i : Instruction} (h : Spells ws i)
    (hws : ∀ w ∈ ws, PlainName w) : Readable i := by
  cases h with
  | arithmetic _ => trivial
  | push _ hn => exact hn.bounded
  | pop _ hn hseg => exact ⟨hseg, hn.bounded⟩
  | label _ => exact hws _ (by simp)
  | goto _ => exact hws _ (by simp)
  | ifGoto _ => exact hws _ (by simp)
  | function _ hn => exact ⟨hws _ (by simp), hn.bounded⟩
  | call _ hn => exact ⟨hws _ (by simp), hn.bounded⟩
  | ret _ => trivial

/-- Every instruction that was read keeps the promise. -/
theorem readable_of_parse {source : String} {is : List Instruction}
    (h : (parse source).map (List.map Located.value) = .ok is) : ∀ i ∈ is, Readable i := by
  have hall := (parse_eq_ok_iff source is).mp h
  intro i hi
  obtain ⟨k, hk, rfl⟩ := List.getElem_of_mem hi
  have hk' : k < (numberedWords source).length := hall.length_eq ▸ hk
  exact (hall.get hk' hk).readable fun w hw =>
    plainName_of_mem_numberedWords (List.getElem_mem hk') hw

/-- The error of a text is the fault of its first line that is not of the language, on that line. -/
theorem parse_eq_error_iff (source : String) (f : SyntaxFault) (line : UInt32) :
    (∃ e, parse source = .error e ∧ e.fault = f ∧ e.span.line = line) ↔
      ∃ before number ws after, numberedWords source = before ++ (number, ws) :: after ∧
        (∀ earlier ∈ before, ∃ i, Spells earlier.2 i) ∧ Faults ws f ∧ line = number.toUInt32 := by
  rw [parse_eq_mapM, ← map_codeLines]
  have hone : ∀ l ∈ codeLines source, l.OnOneLine := fun l hl => onOneLine_of_mem_codeLines hl
  constructor
  · rintro ⟨e, he, rfl, rfl⟩
    obtain ⟨before, l, after, hsplit, hbefore, hl⟩ := mapM_eq_error_iff.mp he
    rw [hsplit] at hone ⊢
    obtain ⟨hfault, hline⟩ := CodeLine.faults_of_read (hone l (by simp)) hl
    refine ⟨before.map fun l => (l.number, l.allWords), l.number, l.allWords,
      after.map fun l => (l.number, l.allWords), by simp, ?_, hfault, hline⟩
    intro earlier hearlier
    obtain ⟨b, hb, rfl⟩ := List.mem_map.mp hearlier
    obtain ⟨i, hi⟩ := hbefore b hb
    exact ⟨i.value, CodeLine.spells_of_read (hone b (by simp [hb])) hi⟩
  · rintro ⟨before, number, ws, after, hsplit, hbefore, hfault, rfl⟩
    obtain ⟨before', rest, hcode, rfl, hrest⟩ := List.map_eq_append_iff.mp hsplit
    obtain ⟨l, after', rfl, hl, -⟩ := List.map_eq_cons_iff.mp hrest
    obtain ⟨rfl, rfl⟩ := Prod.mk.inj hl
    obtain ⟨e, he, rfl, hline⟩ := CodeLine.read_of_faults (hone l (by simp [hcode])) hfault
    refine ⟨e, mapM_eq_error_iff.mpr ⟨before', l, after', hcode, ?_, he⟩, rfl, hline⟩
    intro b hb
    obtain ⟨i, hi⟩ := hbefore _ (List.mem_map_of_mem hb)
    exact ⟨_, CodeLine.read_of_spells hi⟩

/-- **The reader accepts exactly its grammar.** A text is accepted when each physical line with code
is a form of the language; it then reads as the instructions that the lines spell, one each and in
order. Otherwise the error is what is wrong with the first line that is no form, and names that
line. -/
theorem parse_iff_grammar (source : String) :
    ((∃ is, parse source = .ok is) ↔ ∀ line ∈ numberedWords source, ∃ i, Spells line.2 i) ∧
    (∀ is : List Instruction, (parse source).map (List.map Located.value) = .ok is ↔
      List.Forall₂ (fun line i => Spells line.2 i) (numberedWords source) is) ∧
    ∀ (f : SyntaxFault) (line : UInt32),
      (∃ e, parse source = .error e ∧ e.fault = f ∧ e.span.line = line) ↔
        ∃ before number ws after, numberedWords source = before ++ (number, ws) :: after ∧
          (∀ earlier ∈ before, ∃ i, Spells earlier.2 i) ∧ Faults ws f ∧ line = number.toUInt32 := by
  refine ⟨?_, parse_eq_ok_iff source, parse_eq_error_iff source⟩
  constructor
  · rintro ⟨is, his⟩ line hline
    have hall := (parse_eq_ok_iff source (is.map Located.value)).mp (by rw [his]; rfl)
    obtain ⟨k, hk, rfl⟩ := List.getElem_of_mem hline
    exact ⟨_, hall.get hk (hall.length_eq ▸ hk)⟩
  · intro hall
    -- a failed reading would point at a line that spells nothing
    cases hparse : parse source with
    | ok is => exact ⟨is, rfl⟩
    | error e =>
        exfalso
        rw [parse_eq_mapM] at hparse
        obtain ⟨before, l, after, hsplit, -, hl⟩ := mapM_eq_error_iff.mp hparse
        have hmem : l ∈ codeLines source := by simp [hsplit]
        obtain ⟨i, hi⟩ := hall (l.number, l.allWords) (by
          rw [← map_codeLines]
          exact List.mem_map_of_mem hmem)
        rw [CodeLine.read_of_spells hi] at hl
        cases hl

end HackVM.Source

import HackVM.Proofs.Source.Concatenation
import HackVM.Proofs.Source.Locations
import HackVM.Proofs.Source.Sessions

/-!
# The text that commands ignore

Some commands look at a fixed number of words and ignore those behind them, with a warning: a label
and the two jumps look at two words, `function` and `call` at three, `return` at its own.

* **What is ignored.** `usedWords?` says how many words a command looks at. A line says the same
  without its ignored words, and has the same fault (`Spells.keptWords`, `Faults.keptWords`), so it
  comes to the same (`CodeLine.verdict_eq`).
* **What is warned about.** A line with ignored words gives one warning, which covers the text from
  the first of them to the last (`ScannedFrom.warns`); other lines give none.
* **What can be deleted.** `strike` deletes the ignored words of a line, between its separators.
  What stands in front of them is the code that is left (`strike_cases`), unless the last used word
  ends in a blank that separates no words, such as a no-break space: at the end of the code it would
  be trimmed off. Separators stay, since without them a slash at the end of the last used word could
  become part of a comment.

Main statement: `warnings_exact`.
-/

namespace HackVM.Source

open Text

/-! ## Words that are looked at -/

/-- The number of words that a command looks at, its own included, if it ignores those behind
them. -/
def usedWords? (keyword : String) : Option Nat :=
  if keyword = "label" ∨ keyword = "goto" ∨ keyword = "if-goto" then some 2
  else if keyword = "function" ∨ keyword = "call" then some 3
  else if keyword = "return" then some 1
  else none

/-- The number of words of a line that its command looks at. -/
def used? (ws : List String) : Option Nat :=
  ws.head?.bind fun head => usedWords? (lowercase head)

/-- The line has words that its command ignores. -/
def Ignores (ws : List String) : Prop :=
  ∃ n ∈ used? ws, n < ws.length

instance (ws : List String) : Decidable (Ignores ws) :=
  decidable_of_iff ((used? ws).any (fun n => n < ws.length) = true)
    (by simp [Ignores, Option.any_eq_true])

/-- The words that are left of a line without the ignored ones. -/
def keptWords (ws : List String) : List String :=
  (used? ws).elim ws ws.take

/-- The words of a line that its command ignores. -/
def ignoredWords (ws : List String) : List String :=
  (used? ws).elim [] ws.drop

/-- No word is ignored behind an operator. -/
theorem usedWords?_operator (op : Operator) : usedWords? op.name = none := by
  cases op <;> rfl

/-- A word that is no command looks at nothing. -/
theorem usedWords?_of_ne {keyword : String} (h : ∀ k : Keyword, k.text ≠ keyword) :
    usedWords? keyword = none := by
  unfold usedWords?
  rw [if_neg, if_neg, if_neg]
  · exact fun hret => h .ret hret.symm
  · rintro (hfunction | hcall)
    · exact h .function hfunction.symm
    · exact h .call hcall.symm
  · rintro (hlabel | hgoto | hifGoto)
    · exact h .label hlabel.symm
    · exact h .goto hgoto.symm
    · exact h .ifGoto hifGoto.symm

/-- The command itself is always used. -/
theorem usedWords?_pos {keyword : String} {n : Nat} (h : usedWords? keyword = some n) : 0 < n := by
  unfold usedWords? at h
  split_ifs at h <;> cases h <;> decide

/-- A command looks at its own word at least. -/
theorem used?_pos {ws : List String} {n : Nat} (h : used? ws = some n) : 0 < n := by
  obtain ⟨head, -, hhead⟩ := Option.bind_eq_some_iff.mp h
  exact usedWords?_pos hhead

/-- The command alone says how many words are used. -/
theorem used?_cons {head : String} {operands : List String} {keyword : String}
    (h : lowercase head = keyword) : used? (head :: operands) = usedWords? keyword := by
  rw [used?, List.head?_cons, Option.bind_some, h]

/-- **Ignored words do not change what a line says.** -/
theorem Spells.keptWords {ws : List String} {i : Instruction} (h : Spells ws i) :
    Spells (keptWords ws) i := by
  unfold Source.keptWords
  cases h with
  | arithmetic hhead =>
      rw [used?_cons hhead, usedWords?_operator]
      exact .arithmetic hhead
  | push hhead hn =>
      rw [used?_cons hhead]
      exact .push hhead hn
  | pop hhead hn hconstant =>
      rw [used?_cons hhead]
      exact .pop hhead hn hconstant
  | label hhead =>
      rw [used?_cons hhead]
      exact .label hhead
  | goto hhead =>
      rw [used?_cons hhead]
      exact .goto hhead
  | ifGoto hhead =>
      rw [used?_cons hhead]
      exact .ifGoto hhead
  | function hhead hn =>
      rw [used?_cons hhead]
      exact .function hhead hn
  | call hhead hn =>
      rw [used?_cons hhead]
      exact .call hhead hn
  | ret hhead =>
      rw [used?_cons hhead]
      exact .ret hhead

/-- Behind `push` and `pop` every word counts. -/
theorem used?_of_transfer {head : String} (h : lowercase head = "push" ∨ lowercase head = "pop")
    (operands : List String) : used? (head :: operands) = none := by
  rcases h with h | h
  · exact used?_cons h
  · exact used?_cons h

/-- Behind `label`, `goto` and `if-goto` one word is used. -/
theorem used?_of_target {head : String}
    (h : lowercase head = "label" ∨ lowercase head = "goto" ∨ lowercase head = "if-goto")
    (operands : List String) : used? (head :: operands) = some 2 := by
  rcases h with h | h | h
  · exact used?_cons h
  · exact used?_cons h
  · exact used?_cons h

/-- Behind `function` and `call` two words are used. -/
theorem used?_of_signature {head : String}
    (h : lowercase head = "function" ∨ lowercase head = "call") (operands : List String) :
    used? (head :: operands) = some 3 := by
  rcases h with h | h
  · exact used?_cons h
  · exact used?_cons h

/-- **Nor do they change what is wrong with it.** -/
theorem Faults.keptWords {ws : List String} {f : SyntaxFault} (h : Faults ws f) :
    Faults (keptWords ws) f := by
  unfold Source.keptWords
  cases h with
  | notACommand hnone =>
      rw [used?_cons rfl, usedWords?_of_ne hnone]
      exact .notACommand hnone
  | operatorExtra hhead =>
      rw [used?_cons hhead, usedWords?_operator]
      exact .operatorExtra hhead
  | transferExtra hhead =>
      rw [used?_of_transfer hhead]
      exact .transferExtra hhead
  | transferMissing hhead hlength =>
      rw [used?_of_transfer hhead]
      exact .transferMissing hhead hlength
  | targetMissing hhead =>
      rw [used?_of_target hhead]
      exact .targetMissing hhead
  | @signatureMissing head operands hhead hlength =>
      rw [used?_of_signature hhead]
      show Faults ((head :: operands).take 3) _
      rw [List.take_of_length_le (by rw [List.length_cons]; omega)]
      exact .signatureMissing hhead hlength
  | unknownSegment hhead hsegment =>
      rw [used?_of_transfer hhead]
      exact .unknownSegment hhead hsegment
  | malformedIndex hhead hindex =>
      rw [used?_of_transfer hhead]
      exact .malformedIndex hhead hindex
  | popConstant hhead hindex =>
      rw [used?_cons hhead]
      exact .popConstant hhead hindex
  | malformedCount hhead hcount =>
      rw [used?_of_signature hhead]
      exact .malformedCount hhead hcount

/-- A line that has ignored words can only fail because of its count. -/
theorem Faults.of_ignores {ws : List String} {f : SyntaxFault} (h : Faults ws f)
    (hws : Ignores ws) :
    ∃ head name count rest, ws = head :: name :: count :: rest ∧ f = .malformedInteger count := by
  obtain ⟨n, hn, hlt⟩ := hws
  rw [Option.mem_def] at hn
  cases h with
  | notACommand hnone =>
      rw [used?_cons rfl, usedWords?_of_ne hnone] at hn
      cases hn
  | operatorExtra hhead =>
      rw [used?_cons hhead, usedWords?_operator] at hn
      cases hn
  | transferExtra hhead | transferMissing hhead | unknownSegment hhead | malformedIndex hhead =>
      rw [used?_of_transfer hhead] at hn
      cases hn
  | popConstant hhead =>
      rw [used?_cons hhead] at hn
      cases hn
  | targetMissing hhead =>
      rw [used?_of_target hhead] at hn
      cases hn
      rw [List.length_singleton] at hlt
      omega
  | signatureMissing hhead hlength =>
      rw [used?_of_signature hhead] at hn
      cases hn
      rw [List.length_cons] at hlt
      omega
  | malformedCount hhead hcount => exact ⟨_, _, _, _, rfl, rfl⟩

/-! ## What a line comes to -/

/-- The instruction or the fault of a line, without the places. -/
def verdict (result : Except SyntaxError (Located Instruction)) : Except SyntaxFault Instruction :=
  (result.map Located.value).mapError SyntaxError.fault

/-- A line comes to what it says, or to what is wrong with it. -/
theorem CodeLine.verdict_cases {l : CodeLine} (h : l.OnOneLine) :
    (∃ i, Spells l.allWords i ∧ verdict l.read.result = .ok i) ∨
      ∃ f, Faults l.allWords f ∧ verdict l.read.result = .error f := by
  rcases spells_or_faults l.head.text (l.operands.map Token.text) with ⟨i, hi⟩ | ⟨f, hf⟩
  · exact .inl ⟨i, hi, by rw [CodeLine.read_of_spells hi]; rfl⟩
  · obtain ⟨e, he, hfault, -⟩ := CodeLine.read_of_faults h hf
    exact .inr ⟨f, hf, by rw [he, ← hfault]; rfl⟩

/-- **A line comes to the same without its ignored words.** -/
theorem CodeLine.verdict_eq {l l' : CodeLine} (h : l.OnOneLine) (h' : l'.OnOneLine)
    (hwords : l'.allWords = l.allWords ∨ l'.allWords = keptWords l.allWords) :
    verdict l'.read.result = verdict l.read.result := by
  rcases CodeLine.verdict_cases h with ⟨i, hi, hread⟩ | ⟨f, hf, hread⟩
  · have hspells : Spells l'.allWords i := by
      rcases hwords with hwords | hwords
      · rwa [hwords]
      · rw [hwords]
        exact hi.keptWords
    rw [hread, CodeLine.read_of_spells hspells]
    rfl
  · have hfaults : Faults l'.allWords f := by
      rcases hwords with hwords | hwords
      · rwa [hwords]
      · rw [hwords]
        exact hf.keptWords
    obtain ⟨e, he, hfault, -⟩ := CodeLine.read_of_faults h' hfaults
    rw [hread, he, ← hfault]
    rfl

/-! ## The warning of a line -/

namespace CodeLine

/-- The words that the command of the line ignores, where they stand. -/
def ignoredTokens (l : CodeLine) : List Token :=
  (used? l.allWords).elim [] (l.head :: l.operands).drop

/-- The ignored tokens are those of the ignored words. -/
theorem map_text_ignoredTokens (l : CodeLine) :
    l.ignoredTokens.map Token.text = ignoredWords l.allWords := by
  unfold ignoredTokens ignoredWords
  cases used? l.allWords with
  | none => rfl
  | some n => exact List.map_drop

/-- A line has ignored tokens exactly if words are ignored. -/
theorem ignoredTokens_ne_nil_iff (l : CodeLine) : l.ignoredTokens ≠ [] ↔ Ignores l.allWords := by
  have hlength : l.allWords.length = (l.head :: l.operands).length := by simp [allWords]
  unfold ignoredTokens Ignores
  rw [hlength]
  cases used? l.allWords with
  | none => simp
  | some n => simp [Option.elim_some]

/-- The words that the reader leaves aside are the ignored ones. -/
theorem ignored_eq {l : CodeLine} {k : Keyword} (h : lowercase l.head.text = k.text) :
    l.ignored k = l.ignoredTokens := by
  unfold ignoredTokens
  rw [allWords, used?_cons h]
  cases k with
  | operator op =>
      rw [Keyword.text, usedWords?_operator]
      rfl
  | _ => rfl

/-- A line warns about its ignored words, whatever else it reads as. -/
theorem warnings_eq (l : CodeLine) :
    l.read.warnings = (ignoredWarning? (lowercase l.head.text) l.ignoredTokens).toList := by
  cases hk : Keyword.ofText? (lowercase l.head.text) with
  | none =>
      have hnone : l.ignoredTokens = [] := by
        have hne (k : Keyword) : k.text ≠ lowercase l.head.text := by
          intro h
          rw [← h, Keyword.ofText?_text] at hk
          cases hk
        rw [ignoredTokens, allWords, used?_cons rfl, usedWords?_of_ne hne]
        rfl
      simp only [read, hk, hnone]
      rfl
  | some k =>
      have htext : (k.text == lowercase l.head.text) = true :=
        List.find?_some (p := fun k : Keyword => k.text == lowercase l.head.text) hk
      simp only [read, hk, ignored_eq (beq_iff_eq.mp htext).symm]

end CodeLine

/-- The warning about the ignored words of a line names the command and the line, and spans from the
first of these words to the last. -/
structure Warns (source : String) (l : CodeLine) (d : Diagnostic) : Prop where
  severity_eq : d.severity = .warning
  message_eq : d.message = ignoringText (lowercase l.head.text) l.number
  line_eq : d.span.line.toNat = l.number
  covers : ∃ first last piece, l.ignoredTokens.head? = some first ∧
    l.ignoredTokens.getLast? = some last ∧
    d.span.start = first.span.start ∧ d.span.stop = last.span.stop ∧ Locates source d.span piece ∧
    words piece.toList = ignoredWords l.allWords

/-- What is ignored stands at the end of the line. -/
theorem ignoredTokens_isSuffix (l : CodeLine) : l.ignoredTokens <:+ l.head :: l.operands := by
  unfold CodeLine.ignoredTokens
  cases used? l.allWords with
  | none => exact List.nil_suffix
  | some n => exact List.drop_suffix n _

/-- **A line with ignored words gives one warning, and it is right.** -/
theorem ScannedFrom.warns {source : String} (hfit : source.utf8ByteSize < 2 ^ 32)
    {before code : List Char} {l : CodeLine} (h : ScannedFrom source.toList before code l)
    (hl : Ignores l.allWords) : ∃ d, l.read.warnings = [d] ∧ Warns source l d := by
  obtain ⟨first, more, hfirst⟩ := List.exists_cons_of_ne_nil (l.ignoredTokens_ne_nil_iff.mpr hl)
  obtain ⟨last, hlast⟩ : ∃ last, (first :: more).getLast? = some last := ⟨_, List.getLast?_cons⟩
  obtain ⟨ts, hsuffix⟩ := ignoredTokens_isSuffix l
  rw [hfirst] at hsuffix
  obtain ⟨hstart, hstop, piece, hlocates, hwords⟩ := h.locates_suffix hfit hsuffix.symm hlast
  have hline : (first.span.merge last.span).line.toNat = l.number := by
    have honLine : l.OnOneLine := fun t ht => span_line_of_mem_tokens (h.tokens_eq ▸ ht)
    have hmem (t : Token) (ht : t ∈ first :: more) : t.span.line = l.span.line := by
      rw [honLine.span]
      exact honLine t (hsuffix ▸ List.mem_append_right ts ht)
    have hmerged : (first.span.merge last.span).line = l.span.line := by
      rw [Span.merge, hmem first List.mem_cons_self, hmem last (List.mem_of_getLast? hlast)]
      exact ite_self _
    rw [hmerged, h.line_span hfit]
  refine ⟨(Diagnostic.warning
    (ignoringText (lowercase l.head.text) (first.span.merge last.span).line.toNat)
    (first.span.merge last.span)).withNote "extra operands have no effect",
    ?_, rfl, ?_, hline, first, last, piece, ?_, ?_, hstart, hstop, hlocates, ?_⟩
  · rw [CodeLine.warnings_eq, hfirst, ignoredWarning?, List.head?_cons, hlast]
    rfl
  · exact congrArg (ignoringText (lowercase l.head.text)) hline
  · rw [hfirst, List.head?_cons]
  · rw [hfirst, hlast]
  · rw [hwords, ← hfirst, CodeLine.map_text_ignoredTokens]

/-- A line that ignores nothing gives no warning. -/
theorem CodeLine.warnings_of_not_ignores {l : CodeLine} (h : ¬Ignores l.allWords) :
    l.read.warnings = [] := by
  rw [← ignoredTokens_ne_nil_iff, not_not] at h
  rw [warnings_eq, h]
  rfl

/-! ## Deleting ignored words -/

/-- A text cut behind one of its words: what stands up to the end of the word, and the rest. -/
def splitBehind : Nat → List Char → List Char × List Char
  | 0, cs => ([], cs)
  | n + 1, cs =>
    let found := cs.dropWhile isSeparator
    let rest := splitBehind n (found.dropWhile fun c => !isSeparator c)
    (cs.takeWhile isSeparator ++ (found.takeWhile fun c => !isSeparator c) ++ rest.1, rest.2)

/-- Splitting a text loses nothing. -/
theorem append_splitBehind (n : Nat) (cs : List Char) :
    (splitBehind n cs).1 ++ (splitBehind n cs).2 = cs := by
  induction n generalizing cs with
  | zero => rfl
  | succ n ih =>
      rw [splitBehind]
      simp only [List.append_assoc, ih, List.takeWhile_append_dropWhile]

/-- Separators in front make no difference to the words. -/
theorem words_append_of_separators {skipped : List Char} (h : ∀ c ∈ skipped, isSeparator c = true)
    (cs : List Char) : words (skipped ++ cs) = words cs := by
  rw [← words_dropWhile (skipped ++ cs), List.dropWhile_append_of_pos h, words_dropWhile]

/-- Separators hold no word. -/
theorem words_of_separators {cs : List Char} (h : ∀ c ∈ cs, isSeparator c = true) :
    words cs = [] := by
  rw [← List.append_nil cs, words_append_of_separators h, words_nil]

/-- The text is separators, a word and what stands behind it. -/
structure StartsWith (skipped word rest cs : List Char) : Prop where
  eq_append : cs = skipped ++ word ++ rest
  skipped : ∀ c ∈ skipped, isSeparator c = true
  ne_nil : word ≠ []
  word : ∀ c ∈ word, isSeparator c = false
  rest : ∀ c ∈ rest.head?, isSeparator c = true

/-- A text has no words, or it starts with one. -/
theorem startsWith_cases (cs : List Char) :
    (∀ c ∈ cs, isSeparator c = true) ∨ ∃ skipped word rest, StartsWith skipped word rest cs := by
  cases hfound : cs.dropWhile isSeparator with
  | nil => exact .inl (List.dropWhile_eq_nil_iff.mp hfound)
  | cons c more =>
      have hhead := List.head?_dropWhile_not isSeparator cs
      rw [hfound] at hhead
      have hc : isSeparator c = false := by simpa using hhead
      refine .inr ⟨cs.takeWhile isSeparator, c :: more.takeWhile fun c => !isSeparator c,
        more.dropWhile fun c => !isSeparator c, ?_, fun _ => List.mem_takeWhile_imp,
          List.cons_ne_nil _ _, ?_, ?_⟩
      · rw [List.append_assoc, List.cons_append, List.takeWhile_append_dropWhile, ← hfound,
          List.takeWhile_append_dropWhile]
      · intro d hd
        rcases List.mem_cons.mp hd with rfl | hd
        · exact hc
        · simpa using List.mem_takeWhile_imp hd
      · intro d hd
        have hnext := List.head?_dropWhile_not (fun c => !isSeparator c) more
        rw [Option.mem_def.mp hd] at hnext
        simpa using hnext

namespace StartsWith

variable {skipped word rest cs : List Char} (h : StartsWith skipped word rest cs)
include h

/-- The first word, and those of the rest. -/
theorem words_eq : words cs = String.ofList word :: words rest := by
  rw [h.eq_append, List.append_assoc, words_append_of_separators h.skipped,
    words_append h.ne_nil h.word h.rest]

/-- One word more goes to the front. -/
theorem splitBehind_succ (n : Nat) :
    splitBehind (n + 1) cs =
      (skipped ++ word ++ (splitBehind n rest).1, (splitBehind n rest).2) := by
  have hword : ∀ c ∈ word, (!isSeparator c) = true := fun c hc => by rw [h.word c hc]; rfl
  -- the separators end where the word starts, and the word ends where the rest starts
  have hstart : (word ++ rest).takeWhile isSeparator = [] ∧
      (word ++ rest).dropWhile isSeparator = word ++ rest := by
    obtain ⟨c, more, hcons⟩ := List.exists_cons_of_ne_nil h.ne_nil
    have hc : ¬isSeparator c = true := by simp [h.word c (by simp [hcons])]
    rw [hcons, List.cons_append, List.takeWhile_cons_of_neg hc, List.dropWhile_cons_of_neg hc]
    exact ⟨rfl, rfl⟩
  have hstop : rest.takeWhile (fun c => !isSeparator c) = [] ∧
      rest.dropWhile (fun c => !isSeparator c) = rest := by
    cases hrest : rest with
    | nil => exact ⟨rfl, rfl⟩
    | cons c more =>
        have hc : isSeparator c = true := h.rest c (by simp [hrest])
        simp [hc]
  have hcs : cs = skipped ++ (word ++ rest) := by rw [h.eq_append, List.append_assoc]
  have hskipped : cs.takeWhile isSeparator = skipped := by
    rw [hcs, List.takeWhile_append_of_pos h.skipped, hstart.1, List.append_nil]
  have hfound : cs.dropWhile isSeparator = word ++ rest := by
    rw [hcs, List.dropWhile_append_of_pos h.skipped, hstart.2]
  rw [splitBehind, hskipped, hfound, List.takeWhile_append_of_pos hword,
    List.dropWhile_append_of_pos hword, hstop.1, hstop.2, List.append_nil]

end StartsWith

/-- **A text is cut between its words.** -/
theorem words_splitBehind (n : Nat) (cs : List Char) :
    words (splitBehind n cs).1 = (words cs).take n ∧
      words (splitBehind n cs).2 = (words cs).drop n := by
  induction n generalizing cs with
  | zero => exact ⟨words_nil, rfl⟩
  | succ n ih =>
      rcases startsWith_cases cs with hcs | ⟨skipped, word, rest, h⟩
      · have hsplit := append_splitBehind (n + 1) cs
        have hfront : words (splitBehind (n + 1) cs).1 = [] :=
          words_of_separators fun c hc => hcs c (hsplit ▸ List.mem_append_left _ hc)
        have hback : words (splitBehind (n + 1) cs).2 = [] :=
          words_of_separators fun c hc => hcs c (hsplit ▸ List.mem_append_right _ hc)
        rw [words_of_separators hcs, hfront, hback]
        exact ⟨rfl, rfl⟩
      · have hhead : ∀ c ∈ (splitBehind n rest).1.head?, isSeparator c = true := by
          intro c hc
          apply h.rest
          rw [← append_splitBehind n rest, List.head?_append, Option.mem_def.mp hc]
          rfl
        rw [h.splitBehind_succ, h.words_eq, List.take_succ_cons, List.drop_succ_cons,
          List.append_assoc, words_append_of_separators h.skipped,
          words_append h.ne_nil h.word hhead, (ih rest).1]
        exact ⟨rfl, (ih rest).2⟩

/-- What follows behind a word starts with a separator. -/
theorem head?_splitBehind (n : Nat) (cs : List Char) :
    ∀ c ∈ (splitBehind (n + 1) cs).2.head?, isSeparator c = true := by
  rcases startsWith_cases cs with hcs | ⟨skipped, word, rest, h⟩
  · intro c hc
    have hsplit := append_splitBehind (n + 1) cs
    exact hcs c (hsplit ▸ List.mem_append_right _ (List.mem_of_head? hc))
  · rw [h.splitBehind_succ]
    cases n with
    | zero => exact h.rest
    | succ n => exact head?_splitBehind n rest

/-- What is cut off in front ends with its last word. -/
theorem getLast?_splitBehind {n : Nat} {cs : List Char} (h : n ≤ (words cs).length) :
    (splitBehind n cs).1.getLast? = ((words cs).take n).getLast?.bind fun w =>
      w.toList.getLast? := by
  induction n generalizing cs with
  | zero => rfl
  | succ n ih =>
      rcases startsWith_cases cs with hcs | ⟨skipped, word, rest, hstarts⟩
      · rw [words_of_separators hcs] at h
        exact absurd h (Nat.not_succ_le_zero n)
      · rw [hstarts.words_eq, List.length_cons, Nat.add_le_add_iff_right] at h
        rw [hstarts.splitBehind_succ, hstarts.words_eq, List.take_succ_cons, List.getLast?_append,
          ih h, List.getLast?_append, List.getLast?_cons, Option.bind_some]
        cases hlast : ((words rest).take n).getLast? with
        | none =>
            rw [Option.bind_none, Option.none_or, Option.getD_none, String.toList_ofList,
              List.getLast?_eq_some_getLast hstarts.ne_nil, Option.some_or]
        | some w =>
            have hw : w.toList ≠ [] := by
              rw [ne_eq, String.toList_eq_nil_iff]
              exact (mem_words (List.mem_of_mem_take (List.mem_of_getLast? hlast))).1
            rw [Option.bind_some, Option.getD_some, List.getLast?_eq_some_getLast hw,
              Option.some_or]

/-- A line with code is its leading blanks, its code, blanks behind it and a comment, if there is
one. -/
theorem exists_line_parts {line : List Char} (h : codeOf line ≠ []) :
    ∃ blanks comment, line = line.takeWhile isBlank ++ codeOf line ++ (blanks ++ comment) ∧
      beforeComment line = line.takeWhile isBlank ++ codeOf line ++ blanks ∧
      (∀ c ∈ blanks, isBlank c = true) ∧ (comment = [] ∨ ∃ more, comment = '/' :: '/' :: more) := by
  obtain ⟨comment, hcomment, hcases⟩ := exists_comment line
  have hcode : codeOf line ++ ((beforeComment line).dropWhile isBlank).rtakeWhile isBlank =
      (beforeComment line).dropWhile isBlank := List.rdropWhile_append_rtakeWhile ..
  have hlead : line.takeWhile isBlank = (beforeComment line).takeWhile isBlank := by
    have hstop : (beforeComment line).dropWhile isBlank ≠ [] := by
      intro hnil
      rw [hnil] at hcode
      exact h (List.append_eq_nil_iff.mp hcode).1
    conv_lhs => rw [hcomment]
    rw [List.takeWhile_append, if_neg]
    intro hall
    have hlength :=
      congrArg List.length
        (List.takeWhile_append_dropWhile (p := isBlank) (l := beforeComment line))
    rw [List.length_append, hall, Nat.add_eq_left, List.length_eq_zero_iff] at hlength
    exact hstop hlength
  have hparts : beforeComment line = line.takeWhile isBlank ++ codeOf line ++
      ((beforeComment line).dropWhile isBlank).rtakeWhile isBlank := by
    rw [List.append_assoc, hcode, hlead, List.takeWhile_append_dropWhile]
  refine ⟨_, comment, ?_, hparts, fun c hc => List.mem_rtakeWhile_imp hc, hcases⟩
  rw [← List.append_assoc, ← hparts]
  exact hcomment

/-- A line with only the front of its code left, and the separators of the rest. -/
def cutCode (line kept rest : List Char) : List Char :=
  line.takeWhile isBlank ++ kept ++ rest.filter isSeparator ++
    line.drop ((line.takeWhile isBlank).length + (kept ++ rest).length)

/-- Cutting takes the characters out of the cut part that are no separators, and nothing else. -/
theorem cutCode_eq {line kept rest tail : List Char}
    (h : line = line.takeWhile isBlank ++ (kept ++ rest) ++ tail) :
    cutCode line kept rest = line.takeWhile isBlank ++ kept ++ rest.filter isSeparator ++ tail := by
  have htail := congrArg (List.drop (line.takeWhile isBlank ++ (kept ++ rest)).length) h
  rw [List.drop_left, List.length_append] at htail
  rw [cutCode, htail]

/-- **The code of such a line is what was left of it**, if this does not end in a blank. -/
theorem codeOf_cutCode {line kept rest : List Char} (hcode : codeOf line = kept ++ rest)
    (hkept : kept ≠ []) (hlast : ∀ c ∈ kept.getLast?, isBlank c = false) (hne : rest ≠ [])
    (hrest : ∀ c ∈ rest.head?, isSeparator c = true) : codeOf (cutCode line kept rest) = kept := by
  have hcodeNe : codeOf line ≠ [] := by simp [hcode, hkept]
  obtain ⟨blanks, comment, hline, hbefore, hblanks, hcomment⟩ := exists_line_parts hcodeNe
  rw [hcode] at hline hbefore
  have hfront : NoComment (line.takeWhile isBlank ++ kept) := by
    refine (noComment_beforeComment line).of_isInfix ?_
    rw [hbefore, ← List.append_assoc, List.append_assoc]
    exact (List.prefix_append _ _).isInfix
  -- what is put behind the kept code is blank and not empty, so no comment starts before the old
  -- one
  have hback : ∀ c ∈ rest.filter isSeparator ++ blanks, isBlank c = true := by
    intro c hc
    rcases List.mem_append.mp hc with hc | hc
    · exact isBlank_of_isSeparator (List.mem_filter.mp hc).2
    · exact hblanks c hc
  have hbackNe : rest.filter isSeparator ++ blanks ≠ [] := by
    obtain ⟨s, more, rfl⟩ := List.exists_cons_of_ne_nil hne
    rw [List.filter_cons_of_pos (hrest s rfl), List.cons_append]
    exact List.cons_ne_nil _ _
  have hbeforeCut : beforeComment (cutCode line kept rest) =
      line.takeWhile isBlank ++ kept ++ (rest.filter isSeparator ++ blanks) := by
    rw [cutCode_eq hline, ← beforeComment_append_blanks hfront hbackNe hback hcomment]
    simp only [List.append_assoc]
  have hhead : ∀ c ∈ kept.head?, isBlank c = false := by
    intro c hc
    obtain ⟨tail, rfl⟩ := List.head?_eq_some_iff.mp hc
    exact isBlank_head_trim hcode
  rw [codeOf, hbeforeCut]
  exact trim_append (fun _ => List.mem_takeWhile_imp) hback hkept hhead hlast

/-- The last of the words does not end in a blank. -/
def EndsPlain (ws : List String) : Prop :=
  ∀ w ∈ ws.getLast?, ∀ c ∈ w.toList.getLast?, isBlank c = false

instance (ws : List String) : Decidable (EndsPlain ws) :=
  decidable_of_iff (ws.getLast?.all (fun w => w.toList.getLast?.all fun c => !isBlank c) = true)
    (by simp [EndsPlain, Option.all_eq_true])

/-- The line without the words that its command ignores: their characters are deleted, and the
separators between them stay. A line whose last used word ends in a blank, which would no longer be
part of it, is left as it is. -/
def strike (line : List Char) : List Char :=
  let ws := words (codeText line)
  let cut := (used? ws).elim (codeText line, []) fun n => splitBehind n (codeText line)
  if Ignores ws ∧ EndsPlain (keptWords ws) then cutCode line cut.1 cut.2 else line

/-- A text with a word is not empty. -/
theorem ne_nil_of_words {cs : List Char} (h : 0 < (words cs).length) : cs ≠ [] := by
  rintro rfl
  rw [words_nil] at h
  cases h

/-- Where a line is struck, its code is cut between the used and the ignored words. -/
theorem strike_cases (line : List Char) :
    strike line = line ∨ ∃ kept rest, codeOf line = kept ++ rest ∧ kept ≠ [] ∧
      words kept = keptWords (words (codeOf line)) ∧ strike line = cutCode line kept rest ∧
      codeOf (strike line) = kept := by
  by_cases h : Ignores (words (codeText line)) ∧ EndsPlain (keptWords (words (codeText line)))
  · right
    have hstrike : strike line = _ := if_pos h
    rw [codeText_eq_codeOf] at h hstrike
    obtain ⟨⟨n, hn, hlt⟩, hplain⟩ := h
    rw [Option.mem_def] at hn
    have hkeptWords : keptWords (words (codeOf line)) = (words (codeOf line)).take n := by
      rw [keptWords, hn]; rfl
    rw [hn, Option.elim_some] at hstrike
    obtain ⟨m, rfl⟩ : ∃ m, n = m + 1 := Nat.exists_eq_add_one.mpr (used?_pos hn)
    obtain ⟨hfront, hback⟩ := words_splitBehind (m + 1) (codeOf line)
    have hcode := (append_splitBehind (m + 1) (codeOf line)).symm
    have hkept : (splitBehind (m + 1) (codeOf line)).1 ≠ [] :=
      ne_nil_of_words (by rw [hfront, List.length_take]; omega)
    have hrest : (splitBehind (m + 1) (codeOf line)).2 ≠ [] :=
      ne_nil_of_words (by rw [hback, List.length_drop]; omega)
    have hlast : ∀ c ∈ (splitBehind (m + 1) (codeOf line)).1.getLast?, isBlank c = false := by
      intro c hc
      rw [Option.mem_def, getLast?_splitBehind hlt.le, ← hkeptWords] at hc
      obtain ⟨w, hw, hc⟩ := Option.bind_eq_some_iff.mp hc
      exact hplain w hw c hc
    refine ⟨_, _, hcode, hkept, hfront.trans hkeptWords.symm, hstrike, ?_⟩
    rw [hstrike]
    exact codeOf_cutCode hcode hkept hlast hrest (head?_splitBehind m _)
  · exact .inl (if_neg h)

/-- Nothing is added to a line. -/
theorem strike_sublist (line : List Char) : (strike line).Sublist line := by
  rcases strike_cases line with h | ⟨kept, rest, hcode, hkept, -, hstrike, -⟩
  · rw [h]
  · have hcodeNe : codeOf line ≠ [] := by simp [hcode, hkept]
    obtain ⟨blanks, comment, hline, -⟩ := exists_line_parts hcodeNe
    rw [hcode] at hline
    have hfront : (line.takeWhile isBlank ++ kept ++ rest.filter isSeparator).Sublist
        (line.takeWhile isBlank ++ (kept ++ rest)) := by
      rw [← List.append_assoc]
      exact (List.Sublist.refl _).append List.filter_sublist
    have hall := hfront.append_right (blanks ++ comment)
    rwa [← hline, ← cutCode_eq hline, ← hstrike] at hall

/-! ## Texts with struck lines -/

/-- The words of the lines that hold code. -/
def wordLines (ls : List (List Char)) : List (List String) :=
  ls.filterMap fun line => if codeText line = [] then none else some (words (codeText line))

/-- The words of the lines of code, read off the lines of the source. -/
theorem map_allWords_codeLines (source : String) :
    (codeLines source).map CodeLine.allWords = wordLines (source.toList.splitOn '\n') := by
  have hnumbered := congrArg (List.map Prod.snd) (map_codeLines source)
  rw [List.map_map, numberedWords, List.map_filterMap] at hnumbered
  rw [wordLines]
  conv_rhs => rw [← List.zipIdx_map_fst 1 (source.toList.splitOn '\n'), List.filterMap_map]
  refine hnumbered.trans (List.filterMap_congr ?_)
  rintro ⟨line, number⟩ -
  show Option.map Prod.snd (if codeText line = [] then none
    else some (number, words (codeText line))) =
    if codeText line = [] then none else some (words (codeText line))
  split_ifs <;> rfl

/-- The line, or what is left of it without the words that its command ignores. -/
def Struck (line line' : List Char) : Prop :=
  line' = line ∨ line' = strike line

/-- Striking words leaves a line on one line. -/
theorem Struck.newline_notMem {line line' : List Char} (h : Struck line line')
    (hline : '\n' ∉ line) : '\n' ∉ line' := by
  rcases h with rfl | rfl
  · exact hline
  · exact fun hmem => hline ((strike_sublist line).subset hmem)

/-- Striking words in several lines leaves each on one line. -/
theorem newline_notMem_of_struck {ls ls' : List (List Char)} (h : List.Forall₂ Struck ls ls')
    (hls : ∀ line ∈ ls, '\n' ∉ line) : ∀ line' ∈ ls', '\n' ∉ line' := by
  induction h with
  | nil => exact hls
  | cons hhead _ ih =>
      rw [List.forall_mem_cons] at hls ⊢
      exact ⟨hhead.newline_notMem hls.1, ih hls.2⟩

/-- A struck line holds code if the line does, with the same words or the kept ones. -/
theorem Struck.code {line line' : List Char} (h : Struck line line') :
    codeOf line = [] ∧ codeOf line' = [] ∨ codeOf line ≠ [] ∧ codeOf line' ≠ [] ∧
      (words (codeOf line') = words (codeOf line) ∨
        words (codeOf line') = keptWords (words (codeOf line))) := by
  have hsame : codeOf line = [] ∧ codeOf line = [] ∨ codeOf line ≠ [] ∧ codeOf line ≠ [] ∧
      (words (codeOf line) = words (codeOf line) ∨
        words (codeOf line) = keptWords (words (codeOf line))) := by
    by_cases hnil : codeOf line = []
    · exact .inl ⟨hnil, hnil⟩
    · exact .inr ⟨hnil, hnil, .inl rfl⟩
  rcases h with rfl | rfl
  · exact hsame
  · rcases strike_cases line with hline | ⟨kept, rest, hcode, hkept, hwords, -, hstruck⟩
    · rwa [hline]
    · refine .inr ⟨by simp [hcode, hkept], hstruck ▸ hkept, .inr ?_⟩
      rw [hstruck, hwords]

/-- Lines with words struck have the same words, or only those that are kept. -/
theorem forall₂_wordLines {ls ls' : List (List Char)} (h : List.Forall₂ Struck ls ls') :
    List.Forall₂ (fun ws ws' => ws' = ws ∨ ws' = keptWords ws) (wordLines ls) (wordLines ls') := by
  refine List.rel_filterMap ?_ h
  intro line line' hline
  show Option.Rel _ (if codeText line = [] then none else some (words (codeText line)))
    (if codeText line' = [] then none else some (words (codeText line')))
  rw [codeText_eq_codeOf, codeText_eq_codeOf]
  rcases hline.code with ⟨hnil, hnil'⟩ | ⟨hne, hne', hwords⟩
  · rw [if_pos hnil, if_pos hnil']
    exact .none
  · rw [if_neg hne, if_neg hne']
    exact .some hwords

/-- Lines with the same used words are read to the same effect. -/
theorem map_verdict_eq {ls ls' : List CodeLine} (h : ∀ l ∈ ls, l.OnOneLine)
    (h' : ∀ l ∈ ls', l.OnOneLine)
    (hwords : List.Forall₂
      (fun l l' => l'.allWords = l.allWords ∨ l'.allWords = keptWords l.allWords) ls ls') :
    ls'.map (fun l => verdict l.read.result) = ls.map fun l => verdict l.read.result := by
  induction hwords with
  | nil => rfl
  | cons hhead _ ih =>
      rw [List.forall_mem_cons] at h h'
      rw [List.map_cons, List.map_cons, CodeLine.verdict_eq h.1 h'.1 hhead, ih h.2 h'.2]

/-- **A text comes to the same with some of its lines struck.** -/
theorem drain_struck {source : String} {ls : List (List Char)}
    (h : List.Forall₂ Struck (source.toList.splitOn '\n') ls) :
    (Reader.ofSource (String.ofList (['\n'].intercalate ls))).drain.1.map verdict =
      (Reader.ofSource source).drain.1.map verdict := by
  have hne : ls ≠ [] := by
    rintro rfl
    exact List.splitOn_ne_nil _ _ (List.forall₂_nil_right_iff.mp h)
  have hnewline : ∀ line' ∈ ls, '\n' ∉ line' :=
    newline_notMem_of_struck h fun _ => newline_notMem_of_mem_splitOn
  have hwords := forall₂_wordLines h
  have hsplit : (String.ofList (['\n'].intercalate ls)).toList.splitOn '\n' = ls := by
    rw [String.toList_ofList, List.splitOn_intercalate '\n' hnewline hne]
  rw [← map_allWords_codeLines, ← hsplit, ← map_allWords_codeLines, List.forall₂_map_left_iff,
    List.forall₂_map_right_iff] at hwords
  rw [(Reader.drain_ofSource _).1, (Reader.drain_ofSource _).1]
  simp only [readings, List.map_map]
  exact map_verdict_eq (fun _ => onOneLine_of_mem_codeLines)
    (fun _ => onOneLine_of_mem_codeLines) hwords

/-! ## The warnings of a text -/

/-- A drained reader holds the warnings of all lines. -/
theorem warnings_drain (source : String) :
    (Reader.ofSource source).drain.2.warnings = (codeLines source).flatMap fun l =>
      l.read.warnings := by
  rw [(Reader.drain_ofSource source).2, readings, List.flatMap_map]

/-- A line that ignores words gives one warning, about just these words. -/
theorem exists_warns {source : String} (hfit : source.utf8ByteSize < 2 ^ 32) {l : CodeLine}
    (hl : l ∈ codeLines source) (hignores : Ignores l.allWords) :
    ∃ d, l.read.warnings = [d] ∧ Warns source l d := by
  obtain ⟨_, _, _, -, -, hscanned⟩ := CodeLine.scannedFrom_of_mem_ofLines [] source.toList l hl
  exact hscanned.warns hfit hignores

/-- Warnings come in the order of their lines. -/
theorem pairwise_line_warnings {source : String} {ls : List CodeLine} {ds : List Diagnostic}
    (h : List.Forall₂ (Warns source) ls ds) (hls : ls.Pairwise fun l l' => l.number < l'.number) :
    ds.Pairwise fun d d' => d.span.line < d'.span.line := by
  have hnumbers : ls.map CodeLine.number = ds.map fun d => d.span.line.toNat := by
    rw [← List.forall₂_eq_eq_eq, List.forall₂_map_left_iff, List.forall₂_map_right_iff]
    exact h.imp fun l d hd => hd.line_eq.symm
  rw [← List.pairwise_map (f := CodeLine.number) (R := (· < ·)), hnumbers, List.pairwise_map] at hls
  exact hls.imp UInt32.lt_iff_toNat_lt.mpr

/-- A line with ignored words that fails does so because of its count. -/
theorem CodeLine.fault_of_ignores {l : CodeLine} {e : SyntaxError} (h : l.OnOneLine)
    (hl : Ignores l.allWords) (he : l.read.result = .error e) :
    ∃ head name count rest, l.allWords = head :: name :: count :: rest ∧
      e.fault = .malformedInteger count := by
  rcases CodeLine.verdict_cases h with ⟨i, -, hread⟩ | ⟨f, hf, hread⟩
  · rw [he] at hread
    cases hread
  · rw [he] at hread
    cases hread
    exact hf.of_ignores hl

/-- **Warnings are exactly the ignored text.** After a text of less than 2^32 bytes was read to its
end,

* there is one warning for each line with ignored words, in the order of the lines, and there are no
  others; each names the command and the line and spans from the first to the last ignored word;
* a line with ignored words that cannot be read fails because of its count, and is warned about all
  the same;
* deleting the ignored words, in any of the lines whose last used word does not end in a blank,
  changes neither the instructions nor what is wrong with the lines. -/
theorem warnings_exact {source : String} (hfit : source.utf8ByteSize < 2 ^ 32) :
    (codeLines source).map (fun l => (l.number, l.allWords)) = numberedWords source ∧
    List.Forall₂ (Warns source) ((codeLines source).filter fun l => Ignores l.allWords)
      (Reader.ofSource source).drain.2.warnings ∧
    (Reader.ofSource source).drain.2.warnings.Pairwise (fun d d' => d.span.line < d'.span.line) ∧
    (∀ l ∈ codeLines source, Ignores l.allWords → ∀ e, l.read.result = .error e →
      (∃ head name count rest, l.allWords = head :: name :: count :: rest ∧
        e.fault = .malformedInteger count) ∧
      ∃ d ∈ (Reader.ofSource source).drain.2.warnings, Warns source l d) ∧
    ∀ ls, List.Forall₂ Struck (source.toList.splitOn '\n') ls →
      (Reader.ofSource (String.ofList (['\n'].intercalate ls))).drain.1.map verdict =
        (Reader.ofSource source).drain.1.map verdict := by
  have hwarns : List.Forall₂ (Warns source) ((codeLines source).filter fun l => Ignores l.allWords)
      (Reader.ofSource source).drain.2.warnings := by
    rw [warnings_drain]
    exact forall₂_filter_flatMap (fun l hl => exists_warns hfit hl) fun l _ =>
      CodeLine.warnings_of_not_ignores
  refine ⟨map_codeLines source, hwarns, ?_, ?_, fun ls => drain_struck⟩
  · exact pairwise_line_warnings hwarns ((pairwise_number_codeLines source).filter _)
  · intro l hl hignores e he
    refine ⟨CodeLine.fault_of_ignores (onOneLine_of_mem_codeLines hl) hignores he, ?_⟩
    obtain ⟨d, hd, hwarns⟩ := exists_warns hfit hl hignores
    refine ⟨d, ?_, hwarns⟩
    rw [warnings_drain]
    exact List.mem_flatMap.mpr ⟨l, hl, hd ▸ List.mem_singleton_self d⟩

/-- A text in which one warned line fails, and one has a last used word that ends in a no-break
space. -/
def spareText : String :=
  "label a b  // c\ngoto a\u00a0 b\nfunction f x y\nreturn z"

/-- Striking what is ignored from every line is one way to strike. -/
theorem forall₂_struck_strike (ls : List (List Char)) : List.Forall₂ Struck ls (ls.map strike) := by
  rw [List.forall₂_map_right_iff, List.forall₂_same]
  exact fun line _ => .inr rfl

/-- Four lines with a warning each, one of which fails as well; without the ignored words the
results are the same. -/
theorem warnings_exact_of_spareText :
    spareText.utf8ByteSize < 2 ^ 32 ∧ (Reader.ofSource spareText).drain.2.warnings.length = 4 ∧
      (∃ d ∈ (Reader.ofSource spareText).drain.2.warnings,
        d.message = "ignoring trailing text after `function` (line 3)" ∧
        ∃ piece, Locates spareText d.span piece ∧ words piece.toList = ["y"]) ∧
      (Reader.ofSource "label a   // c\ngoto a\u00a0 b\nfunction f x \nreturn ").drain.1.map
        verdict =
        (Reader.ofSource spareText).drain.1.map verdict := by
  have hfit : spareText.utf8ByteSize < 2 ^ 32 := by decide +kernel
  obtain ⟨-, hwarns, -, hfailed, hstruck⟩ := warnings_exact hfit
  have hdeleted : String.ofList (['\n'].intercalate ((spareText.toList.splitOn '\n').map strike)) =
      "label a   // c\ngoto a\u00a0 b\nfunction f x \nreturn " := by
    decide +kernel
  refine ⟨hfit, ?_, ?_, ?_⟩
  · rw [← hwarns.length_eq]
    decide +kernel
  · have hmem : ⟨3, ⟨"function", ⟨3, 27, 35⟩⟩,
        [⟨"f", ⟨3, 36, 37⟩⟩, ⟨"x", ⟨3, 38, 39⟩⟩, ⟨"y", ⟨3, 40, 41⟩⟩]⟩ ∈ codeLines spareText := by
      decide +kernel
    obtain ⟨-, d, hd, hwarns⟩ :=
      hfailed _ hmem (by decide +kernel) ⟨.malformedInteger "x", ⟨3, 38, 39⟩⟩ (by decide +kernel)
    obtain ⟨first, last, piece, -, -, -, -, hlocates, hwords⟩ := hwarns.covers
    refine ⟨d, hd, hwarns.message_eq.trans (by decide +kernel), piece, hlocates,
      hwords.trans (by decide +kernel)⟩
  · rw [← hdeleted]
    exact hstruck _ (forall₂_struck_strike _)

end HackVM.Source

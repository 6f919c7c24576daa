import HackVM.Proofs.Text.CodeText
import HackVM.Source.CodeLine

/-!
# The words of a source text

What the reader sees of a text, said without its scanner. A text is cut at every line feed, each
piece is cut at its first `//` and trimmed (`codeText`), and what is left is cut at every separator;
the pieces that are not empty are the words (`words`). The pieces of text that hold code, with their
line numbers and words, are the *numbered words* of the text (`numberedWords`).

Main statement: the code lines that the reader scans carry exactly these numbers and words, in order
(`map_codeLines`). In particular a line whose code is not empty always has a first word
(`words_codeOf_ne_nil`), so no line with code is ever lost.
-/

namespace HackVM.Source

open Text

/-! ## Words -/

/-- The words of a text: the pieces between separators that are not empty. -/
def words (cs : List Char) : List String :=
  ((cs.splitOnP isSeparator).filter fun piece => !piece.isEmpty).map String.ofList

theorem words_nil : words [] = [] := by
  simp [words]

/-- A separator in front makes no difference. -/
theorem words_cons_of_isSeparator {c : Char} {cs : List Char} (hc : isSeparator c = true) :
    words (c :: cs) = words cs := by
  simp [words, List.splitOnP_cons_eq_if_modifyHead, hc]

/-- Separators in front make no difference. -/
theorem words_dropWhile (cs : List Char) : words (cs.dropWhile isSeparator) = words cs := by
  induction cs with
  | nil => rfl
  | cons c cs ih =>
      by_cases hc : isSeparator c = true
      · rw [List.dropWhile_cons_of_pos hc, ih, words_cons_of_isSeparator hc]
      · rw [List.dropWhile_cons_of_neg hc]

/-- A word in front, up to the end or to a separator, is the first word. -/
theorem words_append {word rest : List Char} (hne : word ≠ [])
    (hword : ∀ c ∈ word, isSeparator c = false)
    (hrest : ∀ c ∈ rest.head?, isSeparator c = true) :
    words (word ++ rest) = String.ofList word :: words rest := by
  cases rest with
  | nil =>
      rw [List.append_nil, words, List.splitOnP_eq_singleton hword]
      simp [hne, words_nil]
  | cons sep rest =>
      have hsep : isSeparator sep = true := hrest sep rfl
      rw [words_cons_of_isSeparator hsep, words,
        List.splitOnP_append_cons_of_forall_mem hword sep hsep]
      simp [hne, words]

/-- A character that is no separator starts a word, which goes on up to the next separator. -/
theorem words_cons_of_not_isSeparator {c : Char} {cs : List Char} (hc : isSeparator c = false) :
    words (c :: cs) = String.ofList (c :: cs.takeWhile fun d => !isSeparator d) ::
      words (cs.dropWhile fun d => !isSeparator d) := by
  have hsplit : c :: cs =
      (c :: cs.takeWhile fun d => !isSeparator d) ++ cs.dropWhile fun d => !isSeparator d := by
    simp
  conv_lhs => rw [hsplit]
  apply words_append
  · exact List.cons_ne_nil _ _
  · simpa [hc] using fun d hd => by simpa using List.mem_takeWhile_imp hd
  · intro d hd
    have hhead := List.head?_dropWhile_not (fun d => !isSeparator d) cs
    rw [Option.mem_def.mp hd] at hhead
    simpa using hhead

/-- The scanner finds the words. -/
theorem map_text_tokens (line offset : Nat) (cs : List Char) :
    (tokens line offset cs).map Token.text = words cs := by
  induction h : cs.length using Nat.strongRecOn generalizing offset cs with
  | ind n ih =>
      rw [tokens, ← words_dropWhile cs]
      split
      · next hdrop => simp [hdrop, words_nil]
      · next c rest hdrop =>
          have hc : isSeparator c = false := by
            have := List.head?_dropWhile_not isSeparator cs
            simpa [hdrop] using this
          have hlt := length_dropWhile_lt hdrop
          rw [List.map_cons, ih _ (h ▸ hlt) _ _ rfl, hdrop, words_cons_of_not_isSeparator hc]

/-- Every word is scanned on its own line. -/
theorem span_line_of_mem_tokens {line offset : Nat} {cs : List Char} {t : Token}
    (ht : t ∈ tokens line offset cs) : t.span.line = line.toUInt32 := by
  induction h : cs.length using Nat.strongRecOn generalizing offset cs with
  | ind n ih =>
      rw [tokens] at ht
      split at ht
      · cases ht
      · next c rest hdrop =>
          rcases List.mem_cons.mp ht with rfl | ht
          · rfl
          · exact ih _ (h ▸ length_dropWhile_lt hdrop) ht rfl

/-- A word is a part of its text, and it is not empty. -/
theorem mem_words {w : String} {cs : List Char} (hw : w ∈ words cs) :
    w ≠ "" ∧ w.toList <:+: cs ∧ ∀ c ∈ w.toList, isSeparator c = false := by
  induction h : cs.length using Nat.strongRecOn generalizing cs with
  | ind n ih =>
      cases cs with
      | nil => simp [words_nil] at hw
      | cons c cs =>
          by_cases hc : isSeparator c = true
          · rw [words_cons_of_isSeparator hc] at hw
            obtain ⟨hne, hinfix, hsep⟩ := ih cs.length (by simp [← h]) hw rfl
            exact ⟨hne, hinfix.trans (List.suffix_cons c cs).isInfix, hsep⟩
          · have hc' : isSeparator c = false := by simpa using hc
            rw [words_cons_of_not_isSeparator hc'] at hw
            rcases List.mem_cons.mp hw with rfl | hw
            · refine ⟨?_, ?_, ?_⟩
              · intro hnil
                simpa using congrArg String.toList hnil
              · rw [String.toList_ofList]
                exact (List.cons_prefix_cons.mpr ⟨rfl, List.takeWhile_prefix _⟩).isInfix
              · rw [String.toList_ofList]
                simpa [hc'] using fun d hd => by simpa using List.mem_takeWhile_imp hd
            · have hlt : (cs.dropWhile fun d => !isSeparator d).length < n := by
                have := (List.dropWhile_sublist (fun d => !isSeparator d) (l := cs)).length_le
                simp only [List.length_cons] at h
                omega
              obtain ⟨hne, hinfix, hsep⟩ := ih _ hlt hw rfl
              exact ⟨hne, hinfix.trans
                ((List.dropWhile_suffix _).isInfix.trans (List.suffix_cons c cs).isInfix), hsep⟩

/-- Code that is not empty starts with a word, since it starts with a character that is no blank. -/
theorem words_codeOf_ne_nil {line : List Char} (h : codeOf line ≠ []) :
    words (codeOf line) ≠ [] := by
  obtain ⟨c, rest, hcode⟩ := List.exists_cons_of_ne_nil h
  have hc : isSeparator c = false := isSeparator_of_not_isBlank (isBlank_head_trim hcode)
  rw [hcode, words, List.splitOnP_cons_eq_if_modifyHead, hc]
  obtain ⟨piece, pieces, hpieces⟩ :=
    List.exists_cons_of_ne_nil (List.splitOnP_ne_nil isSeparator rest)
  simp [hpieces]

/-! ## Numbered words -/

/-- The code of a physical line: its text up to where `//` first starts, without the blanks around
it. -/
def codeText (line : List Char) : List Char :=
  trim (line.take (line.tails.findIdx fun rest => ['/', '/'].isPrefixOf rest))

/-- The code of a line, cut out in two ways. -/
theorem codeText_eq_codeOf (line : List Char) : codeText line = codeOf line := by
  rw [codeText, codeOf, beforeComment_eq_take]

/-- The line numbers and words of the physical lines that hold code, in order. -/
def numberedWords (source : String) : List (Nat × List String) :=
  ((source.toList.splitOn '\n').zipIdx 1).filterMap fun (line, number) =>
    if codeText line = [] then none else some (number, words (codeText line))

namespace CodeLine

/-- All words of a code line. -/
def allWords (l : CodeLine) : List String :=
  l.head.text :: l.operands.map Token.text

/-- A physical line with code gives a code line with its number and words. -/
theorem map_ofPhysical? (number offset : Nat) (line : List Char) :
    (ofPhysical? number offset line).map (fun l => (l.number, l.allWords)) =
      if codeText line = [] then none else some (number, words (codeText line)) := by
  rw [codeText_eq_codeOf, ofPhysical?]
  have htokens := map_text_tokens number
    (offset + byteLength ((beforeComment line).takeWhile isBlank)) (codeOf line)
  split
  · next hnil =>
      rw [hnil, List.map_nil] at htokens
      by_cases hcode : codeOf line = []
      · simp [hcode]
      · exact absurd htokens.symm (words_codeOf_ne_nil hcode)
  · next head operands hcons =>
      rw [hcons, List.map_cons] at htokens
      have hcode : codeOf line ≠ [] := by
        intro hcode
        rw [hcode, words_nil] at htokens
        cases htokens
      rw [if_neg hcode, ← htokens]
      rfl

/-- The code lines of a text that starts on a line with a given number. -/
theorem map_ofLines (number offset : Nat) (cs : List Char) :
    (ofLines number offset (lines cs)).map (fun l => (l.number, l.allWords)) =
      ((cs.splitOn '\n').zipIdx number).filterMap fun (line, number) =>
        if codeText line = [] then none else some (number, words (codeText line)) := by
  induction h : cs.length using Nat.strongRecOn generalizing number offset cs with
  | ind n ih =>
      rcases line_cases cs with hcs | ⟨line, rest, hline, rfl⟩
      · rw [List.splitOn_eq_singleton hcs]
        by_cases hnil : cs = []
        · subst hnil
          rfl
        · rw [lines_of_notMem hcs hnil]
          have := map_ofPhysical? number offset cs
          cases hphys : ofPhysical? number offset cs <;> simp_all [ofLines]
      · have hlt : rest.length < n := by
          simp only [List.length_append, List.length_cons] at h
          omega
        have hphys := map_ofPhysical? number offset (line ++ ['\n'])
        rw [codeText_eq_codeOf, codeOf_append_newline, ← codeText_eq_codeOf] at hphys
        rw [lines_line hline, List.splitOn_append_cons_self_of_not_mem hline, List.zipIdx_cons,
          ofLines, List.map_append, ih _ hlt (number + 1) _ _ rfl, List.filterMap_cons]
        cases hof : ofPhysical? number offset (line ++ ['\n']) <;> simp_all

end CodeLine

/-- The reader's code lines are the numbered words of the text. -/
theorem map_codeLines (source : String) :
    (codeLines source).map (fun l => (l.number, l.allWords)) = numberedWords source :=
  CodeLine.map_ofLines 1 0 source.toList

/-! ## Names -/

/-- What any word of a source text satisfies: it is not empty, and holds neither separators nor a
comment. -/
structure PlainName (name : String) : Prop where
  ne_empty : name ≠ ""
  noSeparator : ∀ c ∈ name.toList, isSeparator c = false
  noComment : NoComment name.toList

/-- A plain word stands on one line. -/
theorem PlainName.newline_notMem {name : String} (h : PlainName name) : '\n' ∉ name.toList :=
  fun hmem => by cases h.noSeparator _ hmem

/-- Every word of every line of a text is a plain name. -/
theorem plainName_of_mem_numberedWords {source : String} {number : Nat} {ws : List String}
    {w : String} (hline : (number, ws) ∈ numberedWords source) (hw : w ∈ ws) : PlainName w := by
  obtain ⟨⟨line, n⟩, _, hsome⟩ := List.mem_filterMap.mp hline
  simp only at hsome
  split_ifs at hsome
  simp only [Option.some.injEq, Prod.mk.injEq] at hsome
  obtain ⟨_, rfl⟩ := hsome
  obtain ⟨hne, hinfix, hsep⟩ := mem_words hw
  rw [codeText_eq_codeOf] at hinfix
  exact ⟨hne, hsep, (noComment_codeOf line).of_isInfix hinfix⟩

end HackVM.Source

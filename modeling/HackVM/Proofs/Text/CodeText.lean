import HackVM.Text.Line
import Mathlib.Data.List.DropRight
import Mathlib.Data.List.Infix
import Mathlib.Data.List.TakeWhile

/-!
# The code of a line, and the lines of a text

Facts about `beforeComment`, `trim`, `codeOf` and `lines` on which both the source reader and the
assembler rest.

* **Comments.** A text is *free of comments* (`NoComment`) when `//` occurs nowhere in it. What
  stands before a comment is the longest prefix that is free of comments and ends before a `//`
  (`beforeComment_eq_take`): the text cut at the first position where `//` starts.
* **Blanks.** The code of a line neither starts nor ends with a blank, and it is empty exactly when
  everything before the comment is blank.
* **Lines.** A line feed ends a physical line, so lines can be peeled off the front of a text one at
  a time (`lines_line`), and the line feed makes no difference to the code
  (`codeOf_append_newline`).
-/

namespace HackVM.Text

/-! ## Comments -/

/-- No comment starts anywhere in the text. -/
def NoComment (cs : List Char) : Prop :=
  ¬ ['/', '/'] <:+: cs

instance (cs : List Char) : Decidable (NoComment cs) :=
  inferInstanceAs (Decidable (¬ _))

/-- A part of a text without comments has no comments. -/
theorem NoComment.of_isInfix {cs ds : List Char} (hds : NoComment ds) (h : cs <:+: ds) :
    NoComment cs :=
  fun hc => hds (hc.trans h)

theorem noComment_nil : NoComment [] := by
  decide

/-- A comment in a longer text starts at the front or lies in the rest. -/
theorem noComment_cons_iff {c : Char} {cs : List Char} :
    NoComment (c :: cs) ↔ ¬ ['/', '/'] <+: c :: cs ∧ NoComment cs := by
  simp [NoComment, List.infix_cons_iff]

/-- A character other than a slash starts no comment. -/
theorem noComment_cons_of_ne {c : Char} {cs : List Char} (hc : c ≠ '/') :
    NoComment (c :: cs) ↔ NoComment cs := by
  simp [noComment_cons_iff, List.cons_prefix_cons, hc.symm]

/-- A character other than a slash keeps comments apart. -/
theorem noComment_append_cons {c : Char} {cs ds : List Char} (hc : c ≠ '/') :
    NoComment (cs ++ c :: ds) ↔ NoComment cs ∧ NoComment ds := by
  induction cs with
  | nil => simp [noComment_cons_of_ne hc, noComment_nil]
  | cons x cs ih =>
      rw [List.cons_append, noComment_cons_iff, noComment_cons_iff, ih]
      have hpre : ['/', '/'] <+: x :: (cs ++ c :: ds) ↔ ['/', '/'] <+: x :: cs := by
        cases cs with
        | nil => simp [List.cons_prefix_cons, hc.symm]
        | cons y cs => simp [List.cons_prefix_cons]
      rw [hpre, and_assoc]

/-- A text without slashes is free of comments. -/
theorem noComment_of_notMem {cs : List Char} (h : '/' ∉ cs) : NoComment cs :=
  fun hc => h (hc.subset (by simp))

/-- What stands before the first `//`, by cases on the next two characters. -/
theorem beforeComment_cons_cons (c d : Char) (cs : List Char) :
    beforeComment (c :: d :: cs) =
      if c = '/' ∧ d = '/' then [] else c :: beforeComment (d :: cs) := by
  by_cases h : c = '/' ∧ d = '/'
  · simp [beforeComment, h]
  · rw [if_neg h, beforeComment, if_neg (by simpa using h)]

/-- Nothing is cut off a text without comments. -/
theorem beforeComment_of_noComment {cs : List Char} (h : NoComment cs) : beforeComment cs = cs := by
  induction cs with
  | nil => rfl
  | cons c cs ih =>
      obtain ⟨hfront, hrest⟩ := noComment_cons_iff.mp h
      cases cs with
      | nil => rfl
      | cons d cs =>
          have hne : ¬ (c = '/' ∧ d = '/') := by
            rintro ⟨rfl, rfl⟩
            exact hfront (by simp [List.cons_prefix_cons])
          rw [beforeComment_cons_cons, if_neg hne, ih hrest]

/-- What stands before a comment is where the text starts. -/
theorem beforeComment_isPrefix (cs : List Char) : beforeComment cs <+: cs := by
  induction cs with
  | nil => exact List.prefix_rfl
  | cons c cs ih =>
      cases cs with
      | nil => exact List.prefix_rfl
      | cons d cs =>
          rw [beforeComment_cons_cons]
          split_ifs
          · exact List.nil_prefix
          · exact List.cons_prefix_cons.mpr ⟨rfl, ih⟩

/-- What stands before a comment has no comment in it. -/
theorem noComment_beforeComment (cs : List Char) : NoComment (beforeComment cs) := by
  induction cs with
  | nil => exact noComment_nil
  | cons c cs ih =>
      cases cs with
      | nil => exact noComment_cons_iff.mpr ⟨by simp, noComment_nil⟩
      | cons d cs =>
          rw [beforeComment_cons_cons]
          split_ifs with h
          · exact noComment_nil
          · refine noComment_cons_iff.mpr ⟨fun hpre => h ?_, ih⟩
            -- the rest starts with `d` or is empty, so a comment here would be `c` and `d`
            have hsub : ['/', '/'] <+: c :: d :: cs :=
              hpre.trans (List.cons_prefix_cons.mpr ⟨rfl, beforeComment_isPrefix (d :: cs)⟩)
            simpa [List.cons_prefix_cons, eq_comm] using hsub

/-- The text before a comment, said by position: the text cut at the first place where `//`
starts. -/
theorem beforeComment_eq_take (cs : List Char) :
    beforeComment cs = cs.take (cs.tails.findIdx fun rest => ['/', '/'].isPrefixOf rest) := by
  induction cs with
  | nil => rfl
  | cons c cs ih =>
      cases cs with
      | nil => simp [beforeComment, List.findIdx_cons, List.isPrefixOf]
      | cons d cs =>
          rw [beforeComment_cons_cons, List.tails_cons, List.findIdx_cons]
          by_cases h : c = '/' ∧ d = '/'
          · simp [h, List.isPrefixOf]
          · have hpre : ['/', '/'].isPrefixOf (c :: d :: cs) = false := by
              rw [Bool.eq_false_iff]
              intro hp
              obtain ⟨hc, hrest⟩ := List.cons_prefix_cons.mp (List.isPrefixOf_iff_prefix.mp hp)
              exact h ⟨hc.symm, (List.cons_prefix_cons.mp hrest).1.symm⟩
            rw [if_neg h, hpre, cond_false, List.take_succ_cons, ← ih]

/-- A line feed after the text changes only what is kept of a text without comments. -/
theorem beforeComment_append_newline (cs : List Char) :
    beforeComment (cs ++ ['\n']) =
      if NoComment cs then beforeComment cs ++ ['\n'] else beforeComment cs := by
  split_ifs with h
  · rw [beforeComment_of_noComment h, beforeComment_of_noComment]
    exact (noComment_append_cons (by decide)).mpr ⟨h, noComment_nil⟩
  · induction cs with
    | nil => exact absurd noComment_nil h
    | cons c cs ih =>
        cases cs with
        | nil =>
          exact absurd (noComment_cons_iff.mpr ⟨by simp [List.cons_prefix_cons], noComment_nil⟩) h
        | cons d cs =>
            rw [List.cons_append, List.cons_append, beforeComment_cons_cons,
              beforeComment_cons_cons]
            split_ifs with hcd
            · rfl
            · rw [← List.cons_append, ih]
              intro hrest
              refine h (noComment_cons_iff.mpr ⟨fun hpre => hcd ?_, hrest⟩)
              simpa [List.cons_prefix_cons, eq_comm] using hpre

/-- Behind what stands before a comment comes the comment, or nothing. -/
theorem exists_comment (cs : List Char) :
    ∃ comment, cs = beforeComment cs ++ comment ∧
      (comment = [] ∨ ∃ more, comment = '/' :: '/' :: more) := by
  induction cs with
  | nil => exact ⟨[], rfl, .inl rfl⟩
  | cons c cs ih =>
      cases cs with
      | nil => exact ⟨[], rfl, .inl rfl⟩
      | cons d cs =>
          rw [beforeComment_cons_cons]
          split_ifs with h
          · exact ⟨c :: d :: cs, rfl, .inr ⟨cs, by rw [h.1, h.2]⟩⟩
          · obtain ⟨comment, hcs, hcomment⟩ := ih
            exact ⟨comment, congrArg (c :: ·) hcs, hcomment⟩

/-- A comment is cut off a text without comments, unless the text ends in a slash. -/
theorem beforeComment_append_comment {cs : List Char} (h : NoComment cs)
    (hlast : cs.getLast? ≠ some '/') (more : List Char) :
    beforeComment (cs ++ '/' :: '/' :: more) = cs := by
  induction cs with
  | nil => rfl
  | cons c cs ih =>
      obtain ⟨hfront, hrest⟩ := noComment_cons_iff.mp h
      cases cs with
      | nil =>
          have hc : c ≠ '/' := by simpa using hlast
          rw [List.singleton_append, beforeComment_cons_cons, if_neg fun hcd => hc hcd.1]
          rfl
      | cons d cs =>
          have hne : ¬ (c = '/' ∧ d = '/') := by
            rintro ⟨rfl, rfl⟩
            exact hfront (by simp [List.cons_prefix_cons])
          rw [List.getLast?_cons_cons] at hlast
          rw [List.cons_append, List.cons_append, beforeComment_cons_cons, if_neg hne,
            ← List.cons_append, ih hrest hlast]

/-- Blanks keep a comment apart from what stands in front of them. -/
theorem beforeComment_append_blanks {cs blanks comment : List Char} (h : NoComment cs)
    (hne : blanks ≠ []) (hblanks : ∀ c ∈ blanks, isBlank c = true)
    (hcomment : comment = [] ∨ ∃ more, comment = '/' :: '/' :: more) :
    beforeComment (cs ++ blanks ++ comment) = cs ++ blanks := by
  have hslash : '/' ∉ blanks := fun hmem => by cases hblanks _ hmem
  have hnone : NoComment (cs ++ blanks) := by
    obtain ⟨b, more, rfl⟩ := List.exists_cons_of_ne_nil hne
    rw [List.mem_cons, not_or] at hslash
    exact (noComment_append_cons (Ne.symm hslash.1)).mpr ⟨h, noComment_of_notMem hslash.2⟩
  have hlast : (cs ++ blanks).getLast? ≠ some '/' := by
    rw [List.getLast?_append_of_ne_nil _ hne]
    exact fun hlast => hslash (List.mem_of_getLast? hlast)
  rcases hcomment with rfl | ⟨more, rfl⟩
  · rw [List.append_nil, beforeComment_of_noComment hnone]
  · exact beforeComment_append_comment hnone hlast more

/-! ## Blanks -/

/-- Trimming the end drops blanks from behind. -/
theorem trimEnd_eq_rdropWhile (cs : List Char) : trimEnd cs = cs.rdropWhile isBlank :=
  rfl

/-- A text that does not end with a blank loses nothing at its end. -/
theorem trimEnd_of_getLast {cs : List Char} (h : ∀ c ∈ cs.getLast?, isBlank c = false) :
    trimEnd cs = cs := by
  rw [trimEnd_eq_rdropWhile, List.rdropWhile_eq_self_iff]
  intro hne
  have := h _ (List.getLast?_eq_getLast_of_ne_nil hne)
  simp [this]

/-- A character in front that is no blank is kept, whatever is dropped at the end. -/
theorem trimEnd_cons {c : Char} {cs : List Char} (hc : isBlank c = false) :
    trimEnd (c :: cs) = c :: trimEnd cs := by
  simp only [trimEnd, List.reverse_cons, List.dropWhile_append]
  by_cases h : (cs.reverse.dropWhile isBlank).isEmpty
  · rw [if_pos h, List.isEmpty_iff.mp h]
    simp [hc]
  · rw [if_neg h]
    simp

/-- A character that is no blank is not dropped. -/
theorem mem_trimEnd {c : Char} {cs : List Char} (hmem : c ∈ cs) (hc : isBlank c = false) :
    c ∈ trimEnd cs := by
  have hparts := List.takeWhile_append_dropWhile (p := isBlank) (l := cs.reverse)
  rw [← List.mem_reverse, ← hparts, List.mem_append] at hmem
  rw [trimEnd, List.mem_reverse]
  refine hmem.resolve_left fun htake => ?_
  rw [List.mem_takeWhile_imp htake] at hc
  cases hc

/-- Blanks at the end are dropped. -/
theorem trimEnd_append_newline (cs : List Char) : trimEnd (cs ++ ['\n']) = trimEnd cs := by
  simp [trimEnd_eq_rdropWhile, List.rdropWhile_concat_pos, show isBlank '\n' = true from rfl]

/-- A line feed at the end is trimmed. -/
theorem trim_append_newline (cs : List Char) : trim (cs ++ ['\n']) = trim cs := by
  unfold trim trimStart
  rw [List.dropWhile_append]
  split_ifs with h
  · rw [List.isEmpty_iff.mp h]
    rfl
  · exact trimEnd_append_newline _

/-- Trimming keeps a piece of the text. -/
theorem trim_isInfix (cs : List Char) : trim cs <:+: cs :=
  (List.rdropWhile_prefix isBlank _).isInfix.trans (List.dropWhile_suffix isBlank).isInfix

/-- The first character of a trimmed text is no blank. -/
theorem isBlank_head_trim {cs rest : List Char} {c : Char} (h : trim cs = c :: rest) :
    isBlank c = false := by
  have hpre : c :: rest <+: cs.dropWhile isBlank := h ▸ List.rdropWhile_prefix isBlank _
  obtain ⟨tail, htail⟩ := hpre
  have hhead := List.head?_dropWhile_not isBlank cs
  rw [← htail] at hhead
  simpa using hhead

/-- Nothing is trimmed off a text that starts and ends with characters that are no blanks. -/
theorem trim_eq_self {cs : List Char} (hhead : ∀ c ∈ cs.head?, isBlank c = false)
    (hlast : ∀ c ∈ cs.getLast?, isBlank c = false) : trim cs = cs := by
  cases cs with
  | nil => rfl
  | cons c cs =>
      have hc : isBlank c = false := hhead c rfl
      rw [trim, trimStart, List.dropWhile_cons_of_neg (by simp [hc])]
      exact trimEnd_of_getLast hlast

/-- Blanks around a text that neither starts nor ends with one are dropped. -/
theorem trim_append {lead cs back : List Char} (hlead : ∀ c ∈ lead, isBlank c = true)
    (hback : ∀ c ∈ back, isBlank c = true) (hne : cs ≠ [])
    (hhead : ∀ c ∈ cs.head?, isBlank c = false) (hlast : ∀ c ∈ cs.getLast?, isBlank c = false) :
    trim (lead ++ cs ++ back) = cs := by
  obtain ⟨c, rest, rfl⟩ := List.exists_cons_of_ne_nil hne
  have hc : ¬isBlank c = true := by simp [hhead c rfl]
  have hback' : ∀ d ∈ back.reverse, isBlank d = true := fun d hd => hback d (List.mem_reverse.mp hd)
  rw [trim, trimStart, List.append_assoc, List.dropWhile_append_of_pos hlead, List.cons_append,
    List.dropWhile_cons_of_neg hc, ← List.cons_append, trimEnd, List.reverse_append,
    List.dropWhile_append_of_pos hback']
  exact trimEnd_of_getLast hlast

/-! ## Lines -/

/-- The code of a line does not depend on its line feed. -/
theorem codeOf_append_newline (cs : List Char) : codeOf (cs ++ ['\n']) = codeOf cs := by
  rw [codeOf, codeOf, beforeComment_append_newline]
  split_ifs
  · exact trim_append_newline _
  · rfl

/-- The code of a line holds no comment. -/
theorem noComment_codeOf (line : List Char) : NoComment (codeOf line) :=
  (noComment_beforeComment line).of_isInfix (trim_isInfix _)

/-- The first line of a text reaches up to and including the first line feed. -/
theorem lines_line {cs : List Char} (h : '\n' ∉ cs) (rest : List Char) :
    lines (cs ++ '\n' :: rest) = (cs ++ ['\n']) :: lines rest := by
  induction cs with
  | nil => simp [lines]
  | cons c cs ih =>
      have hc : c ≠ '\n' := fun hc => h (hc ▸ List.mem_cons_self)
      rw [List.cons_append, lines, if_neg hc, ih (fun hm => h (List.mem_cons_of_mem _ hm))]
      rfl

/-- A line feed ends a line whatever stands behind it. -/
theorem lines_append_newline (cs rest : List Char) :
    lines (cs ++ '\n' :: rest) = lines (cs ++ ['\n']) ++ lines rest := by
  induction cs with
  | nil => rfl
  | cons c cs ih =>
      rw [List.cons_append, List.cons_append, lines, lines, ih]
      split_ifs
      · rfl
      · cases hlines : lines (cs ++ ['\n']) with
        | nil =>
            have hflatten := flatten_lines (cs ++ ['\n'])
            simp [hlines] at hflatten
        | cons l ls => rfl

/-- A text without line feeds is one line, or none if it is empty. -/
theorem lines_of_notMem {cs : List Char} (h : '\n' ∉ cs) (hne : cs ≠ []) : lines cs = [cs] := by
  induction cs with
  | nil => exact absurd rfl hne
  | cons c cs ih =>
      have hc : c ≠ '\n' := fun hc => h (hc ▸ List.mem_cons_self)
      rw [lines, if_neg hc]
      cases cs with
      | nil => rfl
      | cons d cs => rw [ih (fun hm => h (List.mem_cons_of_mem _ hm)) (by simp)]

/-- A text is empty, one unfinished line, or a line and what follows it. -/
theorem line_cases (cs : List Char) :
    '\n' ∉ cs ∨ ∃ line rest, '\n' ∉ line ∧ cs = line ++ '\n' :: rest := by
  by_cases h : '\n' ∈ cs
  · obtain ⟨line, rest, rfl, hline⟩ := List.eq_append_cons_of_mem h
    exact .inr ⟨line, rest, hline, rfl⟩
  · exact .inl h

/-- What stands between two line feeds holds none. -/
theorem newline_notMem_of_mem_splitOn {cs line : List Char} (h : line ∈ cs.splitOn '\n') :
    '\n' ∉ line := by
  induction hn : cs.length using Nat.strongRecOn generalizing cs with
  | ind n ih =>
      rcases line_cases cs with hcs | ⟨first, rest, hfirst, rfl⟩
      · rw [List.splitOn_eq_singleton hcs, List.mem_singleton] at h
        rwa [h]
      · rw [List.splitOn_append_cons_self_of_not_mem hfirst, List.mem_cons] at h
        rcases h with rfl | h
        · exact hfirst
        · refine ih rest.length ?_ h rfl
          rw [← hn, List.length_append, List.length_cons]
          omega

end HackVM.Text

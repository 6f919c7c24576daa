import HackVM.Proofs.Lowering.LineFeeds
import HackVM.Proofs.Source.Printing

/-!
# What spans cover

Every instruction, error and warning of the reader carries a span. `Locates` says what a span is
worth: it covers a piece of the text, from one character boundary to another, and names the line
that the piece stands on. A piece is located as soon as the text is cut around it
(`locates_of_append`).

A code line is scanned from a piece of the text too (`ScannedFrom`), in front of which stand the
lines before it and its own leading blanks. So every part of its code is located by counting the
bytes in front (`ScannedFrom.locates`): the code as a whole, its words, and the words that a command
ignores. Which of these an error points at is said by `Covers`.

Main statement: `spans_exact`. That spans do not overlap needs no counting of bytes: a piece holds
no line feed, so two pieces on different lines are in the order of their lines
(`Locates.stop_lt_start`).
-/

namespace HackVM

/-- Merging a span with itself gives it back. -/
theorem Span.merge_self (s : Span) : s.merge s = s := by
  have hline : min s.line s.line = s.line := ite_self _
  have hstart : min s.start s.start = s.start := ite_self _
  have hstop : max s.stop s.stop = s.stop := ite_self _
  rw [Span.merge, hline, hstart, hstop]

end HackVM

namespace HackVM.Source

open Text

/-! ## Located pieces -/

/-- The span covers exactly this piece of the text, between two character boundaries, and its line
is one more than the number of line feeds before it. The piece lies on one line and holds no
comment. -/
structure Locates (source : String) (s : Span) (piece : String) : Prop where
  start_lt_stop : s.start < s.stop
  stop_le : s.stop.toNat ≤ source.utf8ByteSize
  start_valid : String.Pos.Raw.IsValid source ⟨s.start.toNat⟩
  stop_valid : String.Pos.Raw.IsValid source ⟨s.stop.toNat⟩
  bytes_eq : bytesAt source s = piece.toUTF8
  line_eq : s.line.toNat = 1 + lineFeeds (source.toUTF8.extract 0 s.start.toNat)
  newline_notMem : '\n' ∉ piece.toList
  noComment : NoComment piece.toList

/-- The bytes of characters are those of the text they make. -/
theorem byteLength_eq (cs : List Char) : byteLength cs = (String.ofList cs).utf8ByteSize := by
  rw [← byteLength_toList, String.toList_ofList]

/-- Every character has at least one byte. -/
theorem length_le_byteLength (cs : List Char) : cs.length ≤ byteLength cs := by
  induction cs with
  | nil => exact le_rfl
  | cons c cs ih =>
      have := c.utf8Size_pos
      rw [List.length_cons, byteLength]
      omega

section append

variable {source : String}

/-- A text can be cut behind any of its characters. -/
theorem isValid_byteLength {before after : List Char} (h : source.toList = before ++ after) :
    String.Pos.Raw.IsValid source ⟨byteLength before⟩ := by
  rw [String.Pos.Raw.isValid_iff_exists_append]
  refine ⟨String.ofList before, String.ofList after, ?_, ?_⟩
  · rw [← String.ofList_append, ← h, String.ofList_toList]
  · rw [byteLength_eq]
    rfl

/-- The bytes before a place in the text. -/
theorem extract_zero {before after : List Char} (h : source.toList = before ++ after) :
    source.toUTF8.extract 0 (byteLength before) = (String.ofList before).toUTF8 := by
  have hsource : source = String.ofList before ++ String.ofList after := by
    rw [← String.ofList_append, ← h, String.ofList_toList]
  rw [hsource, byteLength_eq, String.toUTF8_eq_toByteArray, String.toByteArray_append,
    String.toUTF8_eq_toByteArray]
  exact ByteArray.extract_append_eq_left String.size_toByteArray.symm

/-- A piece of a text is located by the bytes and the line feeds before it. -/
theorem locates_of_append (hfit : source.utf8ByteSize < 2 ^ 32) {before piece after : List Char}
    (h : source.toList = before ++ piece ++ after) (hne : piece ≠ []) (hnewline : '\n' ∉ piece)
    (hcomment : NoComment piece) :
    Locates source
      (Span.ofNat (1 + before.count '\n') (byteLength before)
        (byteLength before + byteLength piece))
      (String.ofList piece) := by
  have hbytes : byteLength before + byteLength piece + byteLength after = source.utf8ByteSize := by
    rw [← byteLength_toList, h, byteLength_append, byteLength_append]
  have hpos : 0 < byteLength piece :=
    lt_of_lt_of_le (List.length_pos_iff.mpr hne) (length_le_byteLength piece)
  have hcount : before.count '\n' ≤ byteLength before :=
    List.count_le_length.trans (length_le_byteLength before)
  have hsize : UInt32.size = 2 ^ 32 := rfl
  have hstart : (byteLength before).toUInt32.toNat = byteLength before :=
    UInt32.toNat_ofNat_of_lt' (by omega)
  have hstop : (byteLength before + byteLength piece).toUInt32.toNat =
      byteLength before + byteLength piece := UInt32.toNat_ofNat_of_lt' (by omega)
  have hline : (1 + before.count '\n').toUInt32.toNat = 1 + before.count '\n' :=
    UInt32.toNat_ofNat_of_lt' (by omega)
  have hrest : source.toList = before ++ (piece ++ after) := by rw [h, List.append_assoc]
  have hsource : source = String.ofList before ++ String.ofList piece ++ String.ofList after := by
    rw [← String.ofList_append, ← String.ofList_append, ← h, String.ofList_toList]
  refine ⟨?_, ?_, ?_, ?_, ?_, ?_, ?_, ?_⟩
  · rw [UInt32.lt_iff_toNat_lt, Span.ofNat, hstart, hstop]
    omega
  · rw [Span.ofNat, hstop]
    omega
  · rw [Span.ofNat, hstart]
    exact isValid_byteLength hrest
  · rw [Span.ofNat, hstop, ← byteLength_append]
    exact isValid_byteLength h
  · rw [hsource]
    apply bytesAt_piece
    · rw [Span.ofNat, hstart, byteLength_eq]
    · rw [Span.ofNat, hstop, byteLength_eq, byteLength_eq]
  · rw [Span.ofNat, hstart, hline, extract_zero hrest, lineFeeds_toUTF8, String.toList_ofList]
  · rwa [String.toList_ofList]
  · rwa [String.toList_ofList]

end append

/-- Line feeds of a part of a text, counted in its bytes. -/
theorem lineFeeds_extract (bytes : ByteArray) (i j : Nat) :
    lineFeeds (bytes.extract i j) = ((bytes.data.toList.drop i).take (j - i)).count 10 := by
  rw [lineFeeds, ByteArray.data_extract, Array.toList_extract, List.extract_eq_take_drop]

/-- Pieces on different lines stand in the order of their lines. -/
theorem Locates.stop_lt_start {source : String} {s t : Span} {piece other : String}
    (hs : Locates source s piece) (ht : Locates source t other) (hline : s.line < t.line) :
    s.stop < t.start := by
  have hlt := UInt32.lt_iff_toNat_lt.mp hs.start_lt_stop
  -- the piece adds no line feed to those before it
  have hpiece : lineFeeds (bytesAt source s) = 0 := by
    rw [hs.bytes_eq, lineFeeds_toUTF8, List.count_eq_zero]
    exact hs.newline_notMem
  rw [bytesAt, lineFeeds_extract] at hpiece
  by_contra hle
  rw [UInt32.lt_iff_toNat_lt, not_lt] at hle
  have hsub : (source.toUTF8.data.toList.take t.start.toNat).Sublist
      (source.toUTF8.data.toList.take s.stop.toNat) :=
    List.take_sublist_take_left hle
  have hsplit : source.toUTF8.data.toList.take s.stop.toNat =
      source.toUTF8.data.toList.take s.start.toNat ++
        (source.toUTF8.data.toList.drop s.start.toNat).take (s.stop.toNat - s.start.toNat) := by
    rw [← List.take_add, Nat.add_sub_cancel' hlt.le]
  have hcount := hsub.count_le 10
  rw [hsplit, List.count_append, hpiece] at hcount
  have hs' := hs.line_eq
  have ht' := ht.line_eq
  rw [lineFeeds_extract, List.drop_zero, Nat.sub_zero] at hs' ht'
  rw [UInt32.lt_iff_toNat_lt] at hline
  omega

/-! ## Scanned code -/

/-- The words of the code line were scanned from this code, which is a piece of the text behind
`before`. -/
structure ScannedFrom (source before code : List Char) (l : CodeLine) : Prop where
  exists_after : ∃ after, source = before ++ code ++ after
  number_eq : l.number = 1 + before.count '\n'
  tokens_eq : tokens l.number (byteLength before) code = l.head :: l.operands
  newline_notMem : '\n' ∉ code
  noComment : NoComment code
  head : ∀ c ∈ code.head?, isSeparator c = false
  last : ∀ c ∈ code.getLast?, isSeparator c = false

/-- The scanner skips the separators and takes the word behind them. -/
theorem tokens_eq_cons {line offset : Nat} {cs : List Char} {c : Char} {rest : List Char}
    (h : cs.dropWhile isSeparator = c :: rest) :
    tokens line offset cs =
      ⟨String.ofList (c :: rest.takeWhile fun d => !isSeparator d),
        Span.ofNat line (offset + byteLength (cs.takeWhile isSeparator))
          (offset + byteLength (cs.takeWhile isSeparator) +
            byteLength (c :: rest.takeWhile fun d => !isSeparator d))⟩ ::
      tokens line (offset + byteLength (cs.takeWhile isSeparator) +
        byteLength (c :: rest.takeWhile fun d => !isSeparator d))
          (rest.dropWhile fun d => !isSeparator d) := by
  rw [tokens]
  split
  · next hnil => cases h.symm.trans hnil
  · next hcons =>
      cases h.symm.trans hcons
      rfl

/-- Separators in front make no difference but to the offset. -/
theorem tokens_of_dropWhile {line offset : Nat} {cs : List Char} {c : Char} {rest : List Char}
    (h : cs.dropWhile isSeparator = c :: rest) :
    tokens line (offset + byteLength (cs.takeWhile isSeparator)) (c :: rest) =
      tokens line offset cs := by
  have hc : isSeparator c = false := by
    have := List.head?_dropWhile_not isSeparator cs
    simpa [h] using this
  have hkept : (c :: rest).dropWhile isSeparator = c :: rest :=
    List.dropWhile_cons_of_neg (by simp [hc])
  have hnone : (c :: rest).takeWhile isSeparator = [] := List.takeWhile_cons_of_neg (by simp [hc])
  rw [tokens_eq_cons h, tokens_eq_cons hkept, hnone, byteLength, Nat.add_zero]

/-- Behind any of its words, a text goes on with the next ones. -/
theorem exists_of_tokens_eq_append {line offset : Nat} {cs : List Char} {ts : List Token}
    {first : Token} {more : List Token} (h : tokens line offset cs = ts ++ first :: more) :
    ∃ front piece, cs = front ++ piece ∧ (∀ c ∈ piece.head?, isSeparator c = false) ∧
      tokens line (offset + byteLength front) piece = first :: more := by
  induction ts generalizing offset cs with
  | nil =>
      cases hdrop : cs.dropWhile isSeparator with
      | nil =>
          have hwords := map_text_tokens line offset cs
          rw [← words_dropWhile, hdrop, words_nil, h] at hwords
          cases hwords
      | cons c rest =>
          refine ⟨cs.takeWhile isSeparator, c :: rest, ?_, ?_, (tokens_of_dropWhile hdrop).trans h⟩
          · rw [← hdrop, List.takeWhile_append_dropWhile]
          · have hhead := List.head?_dropWhile_not isSeparator cs
            simpa [hdrop] using hhead
  | cons t ts ih =>
      rcases tokens_cases line offset cs with ⟨hnil, -⟩ | ⟨skipped, word, rest, rfl, -, -, hcons⟩
      · rw [hnil] at h
        cases h
      · rw [hcons] at h
        obtain ⟨front, piece, rfl, hhead, htokens⟩ := ih (List.cons.inj h).2
        refine ⟨skipped ++ word ++ front, piece, by simp only [List.append_assoc], hhead, ?_⟩
        rw [byteLength_append, byteLength_append, ← htokens]
        simp only [Nat.add_assoc]

/-- A line spans from its first word to its last one. -/
theorem CodeLine.span_eq_merge {number : Nat} {first last : Token} {more : List Token}
    (h : (first :: more).getLast? = some last) :
    (CodeLine.mk number first more).span = first.span.merge last.span := by
  rw [List.getLast?_cons] at h
  unfold CodeLine.span
  cases hmore : more.getLast? with
  | none =>
      rw [hmore] at h
      cases h
      exact (Span.merge_self _).symm
  | some last' =>
      rw [hmore] at h
      cases h
      rfl

section scanned

variable {source : String} {before code : List Char} {l : CodeLine}
  (h : ScannedFrom source.toList before code l)
include h

/-- The code of a line lies within the source. -/
theorem ScannedFrom.bytes_le : byteLength before + byteLength code ≤ source.utf8ByteSize := by
  obtain ⟨after, hsource⟩ := h.exists_after
  rw [← byteLength_toList, hsource, byteLength_append, byteLength_append]
  omega

/-- There is a first word, so there is some code. -/
theorem ScannedFrom.code_ne_nil : code ≠ [] := by
  intro hnil
  have hwords := map_text_tokens l.number (byteLength before) code
  rw [h.tokens_eq, hnil, words_nil] at hwords
  cases hwords

variable (hfit : source.utf8ByteSize < 2 ^ 32)
include hfit

/-- The number of the line is kept in full. -/
theorem ScannedFrom.line_span : l.span.line.toNat = l.number := by
  have hline : l.span.line = l.number.toUInt32 :=
    CodeLine.OnOneLine.span fun t ht => span_line_of_mem_tokens (h.tokens_eq ▸ ht)
  have hcount : before.count '\n' ≤ byteLength before :=
    List.count_le_length.trans (length_le_byteLength before)
  have hcode : 0 < byteLength code :=
    lt_of_lt_of_le (List.length_pos_iff.mpr h.code_ne_nil) (length_le_byteLength code)
  have hbytes := h.bytes_le
  have hnumber := h.number_eq
  have hsize : UInt32.size = 2 ^ 32 := rfl
  rw [hline]
  exact UInt32.toNat_ofNat_of_lt' (by omega)

/-- Any part of the code is located. -/
theorem ScannedFrom.locates {front piece back : List Char} (hcode : code = front ++ piece ++ back)
    (hne : piece ≠ []) :
    Locates source
      (Span.ofNat l.number (byteLength before + byteLength front)
        (byteLength before + byteLength front + byteLength piece))
      (String.ofList piece) := by
  obtain ⟨after, hsource⟩ := h.exists_after
  have hsplit : source.toList = (before ++ front) ++ piece ++ (back ++ after) := by
    rw [hsource, hcode]
    simp only [List.append_assoc]
  have hpart : piece <:+: code := ⟨front, back, hcode.symm⟩
  have hfront : front.count '\n' = 0 := by
    rw [List.count_eq_zero]
    intro hmem
    exact h.newline_notMem (by simp [hcode, hmem])
  have hlocates :=
    locates_of_append hfit hsplit hne (fun hmem => h.newline_notMem (hpart.subset hmem))
    (h.noComment.of_isInfix hpart)
  rwa [List.count_append, hfront, Nat.add_zero, ← h.number_eq, byteLength_append] at hlocates

/-- Every word of a line stands where its span says. -/
theorem ScannedFrom.locates_word {t : Token} (ht : t ∈ l.head :: l.operands) :
    Locates source t.span t.text := by
  rw [← h.tokens_eq] at ht
  obtain ⟨front, back, hcode, hspan⟩ := mem_tokens _ _ _ t ht
  have hword : t.text ∈ words code := by
    rw [← map_text_tokens l.number (byteLength before)]
    exact List.mem_map_of_mem ht
  have hne : t.text.toList ≠ [] := by
    rw [ne_eq, String.toList_eq_nil_iff]
    exact (mem_words hword).1
  have hlocates := h.locates hfit hcode hne
  rwa [← hspan, String.ofList_toList] at hlocates

/-- So are words at the end of the line, from the first of them to the last. -/
theorem ScannedFrom.locates_suffix {ts : List Token} {first : Token} {more : List Token}
    {last : Token} (hsuffix : l.head :: l.operands = ts ++ first :: more)
    (hlast : (first :: more).getLast? = some last) :
    (first.span.merge last.span).start = first.span.start ∧
      (first.span.merge last.span).stop = last.span.stop ∧
      ∃ piece, Locates source (first.span.merge last.span) piece ∧
        words piece.toList = (first :: more).map Token.text := by
  have htokens := h.tokens_eq
  rw [hsuffix] at htokens
  obtain ⟨front, piece, hcode, hhead, htokens⟩ := exists_of_tokens_eq_append htokens
  have hwords : words piece = (first :: more).map Token.text := by
    rw [← htokens, map_text_tokens]
  have hne : piece ≠ [] := by
    rintro rfl
    rw [words_nil] at hwords
    cases hwords
  have hend : ∀ c ∈ piece.getLast?, isSeparator c = false := by
    intro c hc
    apply h.last
    rw [hcode, List.getLast?_append, Option.mem_def.mp hc]
    rfl
  have hlocates :=
    @ScannedFrom.locates _ _ _ _ h hfit front piece [] (by rw [List.append_nil, hcode]) hne
  have hbytes : byteLength before + byteLength front + byteLength piece < 2 ^ 32 := by
    have := h.bytes_le
    rw [hcode, byteLength_append] at this
    omega
  have hspan := CodeLine.span_of_tokens (l := ⟨l.number, first, more⟩) hhead hend htokens hbytes
  rw [CodeLine.span_eq_merge hlast] at hspan
  have hstart :=
    start_of_head_tokens l.number (byteLength before + byteLength front) piece hhead first
    (by rw [htokens]; rfl)
  have hstop :=
    stop_of_getLast_tokens l.number (byteLength before + byteLength front) piece hend last
    (by rw [htokens]; exact hlast)
  rw [← hspan] at hlocates
  refine ⟨?_, ?_, _, hlocates, ?_⟩
  · rw [hspan, hstart]
    rfl
  · rw [hspan, hstop]
    rfl
  · rw [String.toList_ofList, hwords]

/-- The code of the line is located by the span of the line. -/
theorem ScannedFrom.locates_line : Locates source l.span (String.ofList code) := by
  have hbytes : byteLength before + byteLength code < 2 ^ 32 := lt_of_le_of_lt h.bytes_le hfit
  have hlocates := @ScannedFrom.locates _ _ _ _ h hfit [] code [] (by simp) h.code_ne_nil
  rwa [byteLength, Nat.add_zero,
    ← CodeLine.span_of_tokens h.head h.last h.tokens_eq hbytes] at hlocates

end scanned

/-! ## Physical lines -/

/-- A line is its leading blanks, its code, and what is cut off behind it. -/
theorem exists_eq_codeOf_append (line : List Char) :
    ∃ tail, line = (beforeComment line).takeWhile isBlank ++ codeOf line ++ tail := by
  obtain ⟨comment, hcomment⟩ := beforeComment_isPrefix line
  obtain ⟨blanks, hblanks⟩ :=
    List.rdropWhile_prefix isBlank ((beforeComment line).dropWhile isBlank)
  refine ⟨blanks ++ comment, ?_⟩
  have hcode : codeOf line ++ blanks = (beforeComment line).dropWhile isBlank := hblanks
  calc line = beforeComment line ++ comment := hcomment.symm
    _ = (beforeComment line).takeWhile isBlank ++ (beforeComment line).dropWhile isBlank ++
      comment := by
        rw [List.takeWhile_append_dropWhile]
    _ = (beforeComment line).takeWhile isBlank ++ codeOf line ++ (blanks ++ comment) := by
        rw [← hcode]
        simp only [List.append_assoc]

/-- Code does not start with a separator. -/
theorem isSeparator_head_codeOf {line : List Char} :
    ∀ c ∈ (codeOf line).head?, isSeparator c = false := by
  intro c hc
  obtain ⟨rest, hcode⟩ := List.head?_eq_some_iff.mp hc
  exact isSeparator_of_not_isBlank (isBlank_head_trim hcode)

/-- Nor does it end with one. -/
theorem isSeparator_getLast_codeOf {line : List Char} :
    ∀ c ∈ (codeOf line).getLast?, isSeparator c = false := by
  intro c hc
  have hne : codeOf line ≠ [] := by
    intro hnil
    rw [hnil] at hc
    cases hc
  have hlast := List.rdropWhile_last_not isBlank ((beforeComment line).dropWhile isBlank) hne
  rw [Option.mem_def, List.getLast?_eq_some_getLast hne, Option.some.injEq] at hc
  subst hc
  exact isSeparator_of_not_isBlank (Bool.eq_false_iff.mpr hlast)

namespace CodeLine

/-- The line feed at its end makes no difference to a physical line. -/
theorem ofPhysical?_append_newline (number offset : Nat) (line : List Char) :
    ofPhysical? number offset (line ++ ['\n']) = ofPhysical? number offset line := by
  have hnil (offset : Nat) : tokens number offset [] = [] := by
    rw [tokens]
    rfl
  unfold ofPhysical?
  rw [codeOf_append_newline]
  by_cases hcode : codeOf line = []
  · simp only [hcode, hnil]
  · -- some character before the comment is no blank, and the leading blanks end there
    have hlength : ((beforeComment line).takeWhile isBlank).length ≠
        (beforeComment line).length := by
      intro hall
      apply hcode
      have hblank := List.takeWhile_append_dropWhile (p := isBlank) (l := beforeComment line)
      have hdrop : (beforeComment line).dropWhile isBlank = [] := by
        rw [← List.length_eq_zero_iff]
        have := congrArg List.length hblank
        rw [List.length_append] at this
        omega
      rw [codeOf, trim, trimStart, hdrop]
      rfl
    have hleading : (beforeComment (line ++ ['\n'])).takeWhile isBlank =
        (beforeComment line).takeWhile isBlank := by
      rw [beforeComment_append_newline]
      split_ifs
      · rw [List.takeWhile_append, if_neg hlength]
      · rfl
    rw [hleading]

/-- A physical line behind others is scanned from its code. -/
theorem scannedFrom_of_ofPhysical? {passed line : List Char} (hline : '\n' ∉ line)
    (rest : List Char) {l : CodeLine}
    (h : ofPhysical? (1 + passed.count '\n') (byteLength passed) line = some l) :
    l.number = 1 + passed.count '\n' ∧
      ∃ before, ScannedFrom (passed ++ line ++ rest) before (codeText line) l := by
  rw [codeText_eq_codeOf]
  obtain ⟨tail, htail⟩ := exists_eq_codeOf_append line
  have hleading : ((beforeComment line).takeWhile isBlank).count '\n' = 0 := by
    rw [List.count_eq_zero]
    intro hmem
    rw [htail] at hline
    exact hline (by simp [hmem])
  have hcode : '\n' ∉ codeOf line := by
    intro hmem
    rw [htail] at hline
    exact hline (by simp [hmem])
  unfold ofPhysical? at h
  cases htokens : tokens (1 + passed.count '\n')
      (byteLength passed + byteLength ((beforeComment line).takeWhile isBlank)) (codeOf line) with
  | nil => simp [htokens] at h
  | cons head operands =>
      simp only [htokens, Option.some.injEq] at h
      subst h
      refine ⟨rfl, passed ++ (beforeComment line).takeWhile isBlank, ⟨tail ++ rest, ?_⟩,
        ?_, ?_, hcode,
        noComment_codeOf line, isSeparator_head_codeOf, isSeparator_getLast_codeOf⟩
      · conv_lhs => rw [htail]
        simp only [List.append_assoc]
      · rw [List.count_append, hleading, Nat.add_zero]
      · rw [byteLength_append]
        exact htokens

/-- The code lines among physical lines behind others: each is scanned from the line that its number
counts. -/
theorem scannedFrom_of_mem_ofLines (passed cs : List Char) :
    ∀ l ∈ ofLines (1 + passed.count '\n') (byteLength passed) (lines cs), ∃ k line before,
      l.number = 1 + passed.count '\n' + k ∧ (cs.splitOn '\n')[k]? = some line ∧
      ScannedFrom (passed ++ cs) before (codeText line) l := by
  induction h : cs.length using Nat.strongRecOn generalizing passed cs with
  | ind n ih =>
      intro l hl
      rcases line_cases cs with hcs | ⟨line, rest, hline, rfl⟩
      · have hphysical : ofPhysical? (1 + passed.count '\n') (byteLength passed) cs = some l := by
          by_cases hnil : cs = []
          · subst hnil
            cases hl
          · rw [lines_of_notMem hcs hnil] at hl
            simpa [ofLines] using hl
        obtain ⟨hnumber, before, hscanned⟩ := scannedFrom_of_ofPhysical? hcs [] hphysical
        rw [List.append_nil] at hscanned
        refine ⟨0, cs, before, hnumber, ?_, hscanned⟩
        rw [List.splitOn_eq_singleton hcs]
        rfl
      · have hlt : rest.length < n := by
          simp only [List.length_append, List.length_cons] at h
          omega
        rw [lines_line hline, ofLines, List.mem_append, Option.mem_toList,
          ofPhysical?_append_newline] at hl
        rw [List.splitOn_append_cons_self_of_not_mem hline]
        rcases hl with hl | hl
        · obtain ⟨hnumber, before, hscanned⟩ := scannedFrom_of_ofPhysical? hline ('\n' :: rest) hl
          rw [List.append_assoc] at hscanned
          exact ⟨0, line, before, hnumber, rfl, hscanned⟩
        · -- what was passed now includes this line and its line feed
          have hcount : (passed ++ (line ++ ['\n'])).count '\n' = passed.count '\n' + 1 := by
            rw [List.count_append, List.count_append, List.count_eq_zero_of_not_mem hline]
            rfl
          have hrest := ih rest.length hlt (passed ++ (line ++ ['\n'])) rest rfl
          rw [hcount, byteLength_append, ← Nat.add_assoc] at hrest
          obtain ⟨k, next, before, hnumber, hk, hscanned⟩ := hrest l hl
          refine ⟨k + 1, next, before, by omega, hk, ?_⟩
          have hsource : passed ++ (line ++ ['\n']) ++ rest = passed ++ (line ++ '\n' :: rest) := by
            simp
          rwa [hsource] at hscanned

end CodeLine

/-! ## What errors point at -/

/-- The piece that the span of a fault covers, in a line with the given code: a word that the fault
is about, or all of the code where words are missing. -/
def Covers (code piece : String) : SyntaxFault → Prop
  | .unknownToken word | .unknownSegment word | .malformedInteger word => piece = word
  | .missingArguments => piece = code
  | .notACommand keyword => lowercase piece = keyword
  | .popConstant => piece = "constant"

/-- An error of a line points at the whole line or at one of its words, and covers what it
should. -/
def CodeLine.Blames (l : CodeLine) (e : SyntaxError) : Prop :=
  e = l.missing ∨ ∃ t ∈ l.head :: l.operands, e.span = t.span ∧ ∀ code, Covers code t.text e.fault

namespace Token

variable {t : Token} {e : SyntaxError}

/-- A word that is no number is blamed itself. -/
theorem fault_of_integer {limit : Nat} (h : t.integer limit = .error e) :
    e = t.fault .malformedInteger := by
  unfold integer at h
  split at h
  · split_ifs at h
    exact (Except.error.inj h).symm
  · exact (Except.error.inj h).symm

/-- So is a word that names no segment. -/
theorem fault_of_segment (h : t.segment = .error e) : e = t.fault .unknownSegment := by
  unfold segment at h
  split at h
  · cases h
  · exact (Except.error.inj h).symm

/-- A word that is read as a segment is its name. -/
theorem text_of_segment {s : Segment} (h : t.segment = .ok s) : t.text = s.name := by
  unfold segment at h
  split at h
  · next found hfound =>
      cases h
      have hname : (s.name == t.text) = true :=
        List.find?_some (p := fun segment : Segment => segment.name == t.text) hfound
      exact (beq_iff_eq.mp hname).symm
  · cases h

end Token

namespace CodeLine

variable {l : CodeLine} {e : SyntaxError}

/-- A fault of a word of the line, which is about this word. -/
theorem blames_of_mem {t : Token} (ht : t ∈ l.operands) {kind : String → SyntaxFault}
    (hkind : ∀ code, Covers code t.text (kind t.text)) : l.Blames (t.fault kind) :=
  .inr ⟨t, List.mem_cons_of_mem _ ht, rfl, hkind⟩

/-- A `push` or `pop` that fails blames one of its words, or the line for one that is missing. -/
theorem blames_of_transfer (h : l.transfer = .error e) : l.Blames e := by
  unfold transfer at h
  split at h
  · next segment index hoperands =>
      rw [bind_eq_error_iff] at h
      rcases h with hsegment | ⟨s, -, h⟩
      · rw [Token.fault_of_segment hsegment]
        exact blames_of_mem (by simp [hoperands]) fun _ => rfl
      · rw [bind_eq_error_iff] at h
        rcases h with hindex | ⟨n, -, h⟩
        · rw [Token.fault_of_integer hindex]
          exact blames_of_mem (by simp [hoperands]) fun _ => rfl
        · cases h
  · next extra _ hoperands =>
      rw [← Except.error.inj h]
      exact blames_of_mem (by simp [hoperands]) fun _ => rfl
  · exact .inl (Except.error.inj h).symm

/-- So does a `label`, `goto` or `if-goto`. -/
theorem blames_of_target (h : l.target = .error e) : l.Blames e := by
  unfold target at h
  split at h
  · cases h
  · exact .inl (Except.error.inj h).symm

/-- So does a `function` or `call`. -/
theorem blames_of_signature (h : l.signature = .error e) : l.Blames e := by
  unfold signature at h
  split at h
  · next count _ hoperands =>
      rw [bind_eq_error_iff] at h
      rcases h with hcount | ⟨n, -, h⟩
      · rw [Token.fault_of_integer hcount]
        exact blames_of_mem (by simp [hoperands]) fun _ => rfl
      · cases h
  · exact .inl (Except.error.inj h).symm

/-- The word of a transfer that names a segment. -/
theorem segment_of_transfer {found : Token × Segment × Word} (h : l.transfer = .ok found) :
    found.1 ∈ l.operands ∧ found.1.text = found.2.1.name := by
  unfold transfer at h
  split at h
  · next first index hoperands =>
      cases hsegment : first.segment with
      | error fault => simp [bind, Except.bind, hsegment] at h
      | ok s =>
          cases hindex : index.integer s.maxIndex with
          | error fault => simp [bind, Except.bind, hsegment, hindex] at h
          | ok n =>
              simp only [bind, Except.bind, hsegment, hindex] at h
              cases h
              exact ⟨by simp [hoperands], Token.text_of_segment hsegment⟩
  · cases h
  · cases h

/-- So does every instruction. -/
theorem blames_of_instruction {k : Keyword} (h : l.instruction k = .error e) : l.Blames e := by
  cases k with
  | operator op =>
      simp only [instruction] at h
      split at h
      · cases h
      · next extra _ hoperands =>
          rw [← Except.error.inj h]
          exact blames_of_mem (by simp [hoperands]) fun _ => rfl
  | push =>
      rcases bind_eq_error_iff.mp h with htransfer | ⟨found, -, h⟩
      · exact blames_of_transfer htransfer
      · cases h
  | pop =>
      rcases bind_eq_error_iff.mp h with htransfer | ⟨found, htransfer, h⟩
      · exact blames_of_transfer htransfer
      · obtain ⟨hword, htext⟩ := segment_of_transfer htransfer
        dsimp only at h
        split_ifs at h with hconstant
        rw [← Except.error.inj h]
        rw [hconstant] at htext
        exact .inr ⟨found.1, List.mem_cons_of_mem _ hword, rfl, fun _ => htext⟩
  | label | goto | ifGoto => exact blames_of_target (map_eq_error_iff.mp h)
  | function | call =>
      rcases bind_eq_error_iff.mp h with hsignature | ⟨found, -, h⟩
      · exact blames_of_signature hsignature
      · cases h
  | ret => cases h

/-- What a line reads as, by whether its first word is a command. -/
theorem read_cases (l : CodeLine) :
    (l.read = ⟨.error ⟨.notACommand (lowercase l.head.text), l.head.span⟩, []⟩) ∨
      ∃ k, Keyword.ofText? (lowercase l.head.text) = some k ∧
        l.read = ⟨(l.instruction k).map fun i => ⟨i, l.span⟩,
          (ignoredWarning? (lowercase l.head.text) (l.ignored k)).toList⟩ := by
  cases hk : Keyword.ofText? (lowercase l.head.text) with
  | none =>
      left
      simp only [read, hk]
  | some k =>
      right
      exact ⟨k, rfl, by simp only [read, hk]⟩

/-- Every error of a line points at the line or at one of its words. -/
theorem blames_of_read (h : l.read.result = .error e) : l.Blames e := by
  rcases l.read_cases with hread | ⟨k, -, hread⟩
  · rw [hread] at h
    cases h
    exact .inr ⟨l.head, List.mem_cons_self, rfl, fun _ => rfl⟩
  · rw [hread] at h
    exact blames_of_instruction (map_eq_error_iff.mp h)

/-- An instruction spans its line. -/
theorem span_of_read {i : Located Instruction} (h : l.read.result = .ok i) : i.span = l.span := by
  rcases l.read_cases with hread | ⟨k, -, hread⟩
  · rw [hread] at h
    cases h
  · rw [hread] at h
    obtain ⟨value, -, rfl⟩ := map_eq_ok_iff.mp h
    rfl

/-- Ignored words stand at the end of the line. -/
theorem ignored_isSuffix (l : CodeLine) (k : Keyword) : l.ignored k <:+ l.head :: l.operands := by
  refine List.IsSuffix.trans ?_ (List.suffix_cons l.head l.operands)
  cases k with
  | label | goto | ifGoto => exact List.drop_suffix 1 l.operands
  | function | call => exact List.drop_suffix 2 l.operands
  | ret => exact List.suffix_rfl
  | operator | push | pop => exact List.nil_suffix

/-- A warning spans from the first word that was ignored to the last. -/
theorem span_of_mem_warnings {d : Diagnostic} (h : d ∈ l.read.warnings) :
    ∃ k first last, Keyword.ofText? (lowercase l.head.text) = some k ∧
      (l.ignored k).head? = some first ∧
      (l.ignored k).getLast? = some last ∧ d.span = first.span.merge last.span := by
  rcases l.read_cases with hread | ⟨k, hk, hread⟩
  · rw [hread] at h
    cases h
  · have hwarning : ignoredWarning? (lowercase l.head.text) (l.ignored k) = some d := by
      rw [hread] at h
      exact Option.mem_toList.mp h
    unfold ignoredWarning? at hwarning
    split at hwarning
    · next first last hfirst hlast =>
        cases hwarning
        exact ⟨k, first, last, hk, hfirst, hlast, rfl⟩
    · cases hwarning

end CodeLine

/-! ## Every span of a text -/

/-- The spans that come from a line with this code are exact. -/
structure CodeLine.Exact (source code : String) (l : CodeLine) : Prop where
  /-- The line is the one that the code is from. -/
  line_eq : l.span.line.toNat = l.number
  line : Locates source l.span code
  /-- No word is cut out of the text inside a character. -/
  word : ∀ t ∈ l.head :: l.operands, Locates source t.span t.text
  /-- An instruction covers the code. -/
  instruction : ∀ i, l.read.result = .ok i → Locates source i.span code
  /-- An error covers what it is about. -/
  fault : ∀ e, l.read.result = .error e → ∃ piece,
    Locates source e.span piece ∧ Covers code piece e.fault
  /-- A warning covers the words that are ignored, from the first to the last. -/
  warning : ∀ d ∈ l.read.warnings, ∃ k first last piece,
    Keyword.ofText? (lowercase l.head.text) = some k ∧
    (l.ignored k).head? = some first ∧ (l.ignored k).getLast? = some last ∧
    d.span.start = first.span.start ∧ d.span.stop = last.span.stop ∧ Locates source d.span piece ∧
    words piece.toList = (l.ignored k).map Token.text

/-- **One line.** The spans of its result and its warnings are exact. -/
theorem ScannedFrom.exact {source : String} (hfit : source.utf8ByteSize < 2 ^ 32)
    {before code : List Char} {l : CodeLine} (h : ScannedFrom source.toList before code l) :
    l.Exact source (String.ofList code) := by
  have hline := h.locates_line hfit
  refine ⟨h.line_span hfit, hline, fun t ht => h.locates_word hfit ht, ?_, ?_, ?_⟩
  · intro i hi
    rwa [CodeLine.span_of_read hi]
  · intro e he
    rcases CodeLine.blames_of_read he with rfl | ⟨t, ht, hspan, hcovers⟩
    · exact ⟨_, hline, rfl⟩
    · rw [hspan]
      exact ⟨_, h.locates_word hfit ht, hcovers _⟩
  · intro d hd
    obtain ⟨k, first, last, hk, hfirst, hlast, hspan⟩ := CodeLine.span_of_mem_warnings hd
    obtain ⟨more, hmore⟩ := List.head?_eq_some_iff.mp hfirst
    obtain ⟨ts, hsuffix⟩ := l.ignored_isSuffix k
    rw [hmore] at hsuffix
    obtain ⟨hstart, hstop, piece, hlocates, hwords⟩ :=
      h.locates_suffix hfit hsuffix.symm (hmore ▸ hlast)
    rw [← hspan] at hstart hstop hlocates
    exact ⟨k, first, last, piece, hk, hfirst, hlast, hstart, hstop, hlocates, hmore ▸ hwords⟩

/-- Where the reader cuts a physical line: at its start, behind its leading blanks, before its
comment and at its end. -/
def cuts (line : List Char) : List Nat :=
  [0, byteLength ((beforeComment line).takeWhile isBlank), byteLength (beforeComment line),
    byteLength line]

/-- Each of these is behind some characters of the line. -/
theorem exists_of_mem_cuts {line : List Char} {cut : Nat} (h : cut ∈ cuts line) :
    ∃ front, front <+: line ∧ cut = byteLength front := by
  have hcomment := beforeComment_isPrefix line
  simp only [cuts, List.mem_cons, List.not_mem_nil, or_false] at h
  rcases h with rfl | rfl | rfl | rfl
  · exact ⟨[], List.nil_prefix, rfl⟩
  · exact ⟨_, (List.takeWhile_prefix isBlank).trans hcomment, rfl⟩
  · exact ⟨_, hcomment, rfl⟩
  · exact ⟨line, List.prefix_rfl, rfl⟩

/-- The borders of a line lie between characters. -/
theorem isValid_cut {source : String} {before : List (List Char)} {line : List Char}
    {rest : List (List Char)} (h : lines source.toList = before ++ line :: rest) {cut : Nat}
    (hcut : cut ∈ cuts line) : String.Pos.Raw.IsValid source ⟨byteLength before.flatten + cut⟩ := by
  obtain ⟨front, ⟨back, hfront⟩, rfl⟩ := exists_of_mem_cuts hcut
  have hsource : source.toList = (before.flatten ++ front) ++ (back ++ rest.flatten) := by
    rw [← flatten_lines source.toList, h, ← hfront]
    simp only [List.flatten_append, List.flatten_cons, List.append_assoc]
  rw [← byteLength_append]
  exact isValid_byteLength hsource

/-- Lines are numbered in order. -/
theorem pairwise_number_codeLines (source : String) :
    (codeLines source).Pairwise fun l l' => l.number < l'.number := by
  have hlines : ((source.toList.splitOn '\n').zipIdx 1).Pairwise fun p q => p.2 < q.2 := by
    rw [← List.pairwise_map (f := Prod.snd), List.zipIdx_map_snd]
    exact List.pairwise_lt_range'
  have hnumbered : (numberedWords source).Pairwise fun p q => p.1 < q.1 := by
    unfold numberedWords
    rw [List.pairwise_filterMap]
    refine hlines.imp ?_
    rintro ⟨line, number⟩ ⟨line', number'⟩ hlt p hp q hq
    simp only at hp hq hlt
    split_ifs at hp hq
    cases hp
    cases hq
    exact hlt
  rw [← map_codeLines, List.pairwise_map] at hnumbered
  exact hnumbered

/-- **Spans are exact.** In a text of less than 2^32 bytes,

* every span of every line covers what it should: the code of the line with that number, or the part
  of it that an error or a warning is about;
* wherever the reader cuts a line, it cuts between two characters;
* instructions come in order, line by line, and their spans do not touch each other. -/
theorem spans_exact {source : String} (hfit : source.utf8ByteSize < 2 ^ 32) :
    (∀ l ∈ codeLines source, ∃ line, (source.toList.splitOn '\n')[l.number - 1]? = some line ∧
      l.Exact source (String.ofList (codeText line))) ∧
    (∀ before line rest, lines source.toList = before ++ line :: rest → ∀ cut ∈ cuts line,
      String.Pos.Raw.IsValid source ⟨byteLength before.flatten + cut⟩) ∧
    ((readings source).filterMap fun r => r.result.toOption).Pairwise fun i j =>
      i.span.line < j.span.line ∧ i.span.stop < j.span.start := by
  have hexact : ∀ l ∈ codeLines source, ∃ line,
      (source.toList.splitOn '\n')[l.number - 1]? = some line ∧
      l.Exact source (String.ofList (codeText line)) := by
    intro l hl
    obtain ⟨k, line, before, hnumber, hline, hscanned⟩ :=
      CodeLine.scannedFrom_of_mem_ofLines [] source.toList l hl
    have hk : l.number - 1 = k := by
      rw [hnumber, List.count_nil]
      omega
    exact ⟨line, hk ▸ hline, hscanned.exact hfit⟩
  refine ⟨hexact, fun _ _ _ h _ hcut => isValid_cut h hcut, ?_⟩
  rw [List.pairwise_filterMap, readings, List.pairwise_map]
  refine (pairwise_number_codeLines source).imp_of_mem ?_
  intro l l' hl hl' hlt i hi j hj
  obtain ⟨line, -, hline⟩ := hexact l hl
  obtain ⟨line', -, hline'⟩ := hexact l' hl'
  rw [toOption_eq_some_iff] at hi hj
  have hlines : i.span.line < j.span.line := by
    rw [UInt32.lt_iff_toNat_lt, CodeLine.span_of_read hi, CodeLine.span_of_read hj, hline.line_eq,
      hline'.line_eq]
    exact hlt
  exact ⟨hlines, (hline.instruction i hi).stop_lt_start (hline'.instruction j hj) hlines⟩

/-- A text with characters of several bytes, a blank that separates no words and a carriage
return. -/
def oddText : String :=
  "  add // é\n\u00a0label ü a  b\r\nPÜSH x"

/-- The second line spans its code, its warning the words that are ignored, and the error of the
third line the word that is no command. -/
theorem spans_exact_of_oddText :
    oddText.utf8ByteSize < 2 ^ 32 ∧ Locates oddText ⟨2, 14, 27⟩ "label ü a  b" ∧
      (∃ piece, Locates oddText ⟨2, 23, 27⟩ piece ∧ words piece.toList = ["a", "b"]) ∧
      ∃ piece, Locates oddText ⟨3, 29, 34⟩ piece ∧ lowercase piece = "püsh" := by
  have hfit : oddText.utf8ByteSize < 2 ^ 32 := by decide +kernel
  have hlines : codeLines oddText =
      [⟨1, ⟨"add", ⟨1, 2, 5⟩⟩, []⟩,
        ⟨2, ⟨"label", ⟨2, 14, 19⟩⟩, [⟨"ü", ⟨2, 20, 22⟩⟩, ⟨"a", ⟨2, 23, 24⟩⟩, ⟨"b", ⟨2, 26, 27⟩⟩]⟩,
        ⟨3, ⟨"PÜSH", ⟨3, 29, 34⟩⟩, [⟨"x", ⟨3, 35, 36⟩⟩]⟩] := by
    decide +kernel
  obtain ⟨hexact, -⟩ := spans_exact hfit
  rw [hlines] at hexact
  obtain ⟨second, hsecond, hlabel⟩ := hexact _ (List.mem_cons_of_mem _ List.mem_cons_self)
  obtain ⟨third, -, hpush⟩ :=
    hexact _ (List.mem_cons_of_mem _ (List.mem_cons_of_mem _ List.mem_cons_self))
  refine ⟨hfit, ?_, ?_, ?_⟩
  · have hcode : ((oddText.toList.splitOn '\n')[2 - 1]?).map
        (fun line => String.ofList (codeText line)) = some "label ü a  b" := by
      decide +kernel
    change (oddText.toList.splitOn '\n')[2 - 1]? = some second at hsecond
    have hinstruction := hlabel.instruction ⟨.label "ü", ⟨2, 14, 27⟩⟩ (by decide +kernel)
    rw [hsecond, Option.map_some, Option.some.injEq] at hcode
    rwa [hcode] at hinstruction
  · have hwarning : ∃ d ∈ (CodeLine.mk 2 ⟨"label", ⟨2, 14, 19⟩⟩
        [⟨"ü", ⟨2, 20, 22⟩⟩, ⟨"a", ⟨2, 23, 24⟩⟩, ⟨"b", ⟨2, 26, 27⟩⟩]).read.warnings,
          d.span = ⟨2, 23, 27⟩ := by
      decide +kernel
    have hkeyword : Keyword.ofText? (lowercase "label") = some .label := by decide +kernel
    obtain ⟨d, hd, hspan⟩ := hwarning
    obtain ⟨k, -, -, piece, hk, -, -, -, -, hlocates, hwords⟩ := hlabel.warning d hd
    cases hkeyword.symm.trans hk
    rw [hspan] at hlocates
    exact ⟨piece, hlocates, hwords⟩
  · exact hpush.fault ⟨.notACommand "püsh", ⟨3, 29, 34⟩⟩ (by decide +kernel)

end HackVM.Source

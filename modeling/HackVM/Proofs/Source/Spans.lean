import HackVM.Proofs.Source.Words
import Mathlib.Algebra.Group.Nat.Defs

/-!
# Where words stand

The spans that the scanner gives. A word of a text that starts at some offset is a piece of that
text, and its span counts the bytes up to the piece and up to its end (`mem_tokens`). A code line,
whose code neither starts nor ends with a separator, spans exactly the bytes of its code
(`CodeLine.span_of_tokens`): the first word starts where the code starts and the last one ends where
it ends.

Spans are kept in 32 bits, so the second statement needs the code to end before byte 2^32.
-/

namespace HackVM.Source

open Text

/-! ## The scanner step by step -/

/-- The scanner finds nothing, or it skips separators, takes a word and goes on behind it. -/
theorem tokens_cases (line offset : Nat) (cs : List Char) :
    (tokens line offset cs = [] ∧ ∀ c ∈ cs, isSeparator c = true) ∨
      ∃ skipped word rest, cs = skipped ++ word ++ rest ∧ word ≠ [] ∧
        (∀ c ∈ skipped, isSeparator c = true) ∧
        tokens line offset cs =
          ⟨String.ofList word, Span.ofNat line (offset + byteLength skipped)
            (offset + byteLength skipped + byteLength word)⟩ ::
          tokens line (offset + byteLength skipped + byteLength word) rest := by
  rw [tokens]
  split
  · next hdrop => exact .inl ⟨rfl, List.dropWhile_eq_nil_iff.mp hdrop⟩
  · next c rest hdrop =>
      right
      refine ⟨cs.takeWhile isSeparator, c :: rest.takeWhile fun d => !isSeparator d,
        rest.dropWhile fun d => !isSeparator d, ?_, List.cons_ne_nil _ _,
        fun c hc => List.mem_takeWhile_imp hc, rfl⟩
      conv_lhs => rw [← List.takeWhile_append_dropWhile (p := isSeparator) (l := cs), hdrop]
      rw [List.append_assoc, List.cons_append, List.takeWhile_append_dropWhile]

/-- Induction along the scanner. -/
theorem tokens_induction (line : Nat) {P : Nat → List Char → Prop}
    (nothing : ∀ offset cs, tokens line offset cs = [] → (∀ c ∈ cs, isSeparator c = true) →
      P offset cs)
    (word : ∀ offset skipped word rest, word ≠ [] →
      tokens line offset (skipped ++ word ++ rest) =
        ⟨String.ofList word, Span.ofNat line (offset + byteLength skipped)
          (offset + byteLength skipped + byteLength word)⟩ ::
        tokens line (offset + byteLength skipped + byteLength word) rest →
      P (offset + byteLength skipped + byteLength word) rest → P offset (skipped ++ word ++ rest))
    (offset : Nat) (cs : List Char) : P offset cs := by
  induction h : cs.length using Nat.strongRecOn generalizing offset cs with
  | ind n ih =>
      rcases tokens_cases line offset cs with ⟨hnil, hcs⟩ | ⟨skipped, w, rest, rfl, hw, -, hcons⟩
      · exact nothing offset cs hnil hcs
      · have hlt : rest.length < n := by
          have := List.length_pos_iff.mpr hw
          simp only [List.length_append] at h
          omega
        exact word offset skipped w rest hw hcons (ih _ hlt _ _ rfl)

/-- A word is a piece of the text, and its span counts the bytes before it and up to its end. -/
theorem mem_tokens (line offset : Nat) (cs : List Char) :
    ∀ t ∈ tokens line offset cs, ∃ before after, cs = before ++ t.text.toList ++ after ∧
      t.span = Span.ofNat line (offset + byteLength before)
        (offset + byteLength before + byteLength t.text.toList) := by
  induction offset, cs using tokens_induction line with
  | nothing offset cs hnil _ =>
      rw [hnil]
      intro t ht
      cases ht
  | word offset skipped word rest _ hcons ih =>
      rw [hcons]
      intro t ht
      rcases List.mem_cons.mp ht with rfl | ht
      · exact ⟨skipped, rest, by rw [String.toList_ofList], by rw [String.toList_ofList]⟩
      · obtain ⟨before, after, rfl, hspan⟩ := ih t ht
        refine ⟨skipped ++ word ++ before, after, by simp only [List.append_assoc], ?_⟩
        rw [hspan, byteLength_append, byteLength_append]
        simp only [Nat.add_assoc]

/-- In a text that starts with a word, the first word starts where the text does. -/
theorem start_of_head_tokens (line offset : Nat) (cs : List Char)
    (hcs : ∀ c ∈ cs.head?, isSeparator c = false) :
    ∀ t ∈ (tokens line offset cs).head?, t.span.start = offset.toUInt32 := by
  rcases tokens_cases line offset cs with ⟨hnil, -⟩ | ⟨skipped, word, rest, rfl, -, hskipped, hcons⟩
  · rw [hnil]
    rintro t ⟨⟩
  · have hnone : skipped = [] := by
      cases skipped with
      | nil => rfl
      | cons c skipped =>
          have hc := hskipped c List.mem_cons_self
          rw [hcs c rfl] at hc
          cases hc
    subst hnone
    rw [hcons]
    rintro t ⟨⟩
    rfl

/-- In a text that ends with a word, the last word ends where the text does. -/
theorem stop_of_getLast_tokens (line offset : Nat) (cs : List Char) :
    (∀ c ∈ cs.getLast?, isSeparator c = false) →
      ∀ t ∈ (tokens line offset cs).getLast?, t.span.stop = (offset + byteLength cs).toUInt32 := by
  induction offset, cs using tokens_induction line with
  | nothing offset cs hnil _ =>
      rw [hnil]
      rintro - t ⟨⟩
  | word offset skipped word rest hword hcons ih =>
      intro hlast t ht
      have hbytes : offset + byteLength (skipped ++ word ++ rest) =
          offset + byteLength skipped + byteLength word + byteLength rest := by
        simp only [byteLength_append, Nat.add_assoc]
      rw [hcons, List.getLast?_cons] at ht
      rw [hbytes]
      cases htokens : tokens line (offset + byteLength skipped + byteLength word) rest with
      | nil =>
          -- what is left are separators, and the text ends with none
          have hrest : rest = [] := by
            rcases tokens_cases line (offset + byteLength skipped + byteLength word) rest with
              ⟨-, hall⟩ | ⟨_, _, _, -, -, -, hne⟩
            · rcases List.eq_nil_or_concat rest with hrest | ⟨front, c, rfl⟩
              · exact hrest
              · have hc := hlast c (by simp)
                rw [hall c (by simp)] at hc
                cases hc
            · rw [htokens] at hne
              cases hne
          subst hrest
          rw [htokens] at ht
          cases ht
          rfl
      | cons u us =>
          have hlast' : ∀ c ∈ rest.getLast?, isSeparator c = false := by
            intro c hc
            apply hlast
            rw [List.getLast?_append, Option.mem_def.mp hc]
            rfl
          apply ih hlast'
          rw [htokens, List.getLast?_cons] at ht ⊢
          exact ht

/-! ## The span of a code line -/

/-- Numbers that fit keep their order. -/
theorem toUInt32_le {m n : Nat} (h : m ≤ n) (hn : n < 2 ^ 32) : m.toUInt32 ≤ n.toUInt32 := by
  rw [UInt32.le_iff_toNat_le]
  simp only [Nat.toUInt32_eq, UInt32.toNat_ofNat']
  omega

/-- A word of a text that ends before byte 2^32 lies between the start and the end of the text. -/
theorem bounds_of_mem_tokens {line offset : Nat} {cs : List Char} {t : Token}
    (ht : t ∈ tokens line offset cs) (hfit : offset + byteLength cs < 2 ^ 32) :
    offset.toUInt32 ≤ t.span.start ∧ t.span.stop ≤ (offset + byteLength cs).toUInt32 := by
  obtain ⟨before, after, hcs, hspan⟩ := mem_tokens line offset cs t ht
  have hbytes : byteLength cs =
      byteLength before + byteLength t.text.toList + byteLength after := by
    conv_lhs => rw [hcs]
    rw [byteLength_append, byteLength_append]
  rw [hspan]
  constructor
  · exact toUInt32_le (by omega) (by omega)
  · exact toUInt32_le (by omega) (by omega)

/-- A code line spans the bytes of its code. -/
theorem CodeLine.span_of_tokens {line offset : Nat} {cs : List Char} {l : CodeLine}
    (hhead : ∀ c ∈ cs.head?, isSeparator c = false)
    (hlast : ∀ c ∈ cs.getLast?, isSeparator c = false)
    (hl : tokens line offset cs = l.head :: l.operands) (hfit : offset + byteLength cs < 2 ^ 32) :
    l.span = Span.ofNat line offset (offset + byteLength cs) := by
  have hmem : ∀ t ∈ l.head :: l.operands, t ∈ tokens line offset cs := fun t ht => hl ▸ ht
  have hline : ∀ t ∈ l.head :: l.operands, t.span.line = line.toUInt32 :=
    fun t ht => span_line_of_mem_tokens (hmem t ht)
  have hstart : l.head.span.start = offset.toUInt32 :=
    start_of_head_tokens line offset cs hhead _ (by rw [hl]; rfl)
  have hstop := stop_of_getLast_tokens line offset cs hlast
  rw [hl, List.getLast?_cons] at hstop
  have hbounds : l.head.span.stop ≤ (offset + byteLength cs).toUInt32 :=
    (bounds_of_mem_tokens (hmem _ List.mem_cons_self) hfit).2
  have hheadLine := hline _ List.mem_cons_self
  unfold CodeLine.span
  cases hoperands : l.operands.getLast? with
  | none =>
      have hstop' : l.head.span.stop = (offset + byteLength cs).toUInt32 :=
        hstop _ (by rw [hoperands]; rfl)
      show l.head.span = ⟨line.toUInt32, offset.toUInt32, (offset + byteLength cs).toUInt32⟩
      rw [← hheadLine, ← hstart, ← hstop']
  | some last =>
      have hlastMem : last ∈ l.head :: l.operands :=
        List.mem_cons_of_mem _ (List.mem_of_getLast? hoperands)
      have hstop' : last.span.stop = (offset + byteLength cs).toUInt32 :=
        hstop _ (by rw [hoperands]; rfl)
      have hstart' : offset.toUInt32 ≤ last.span.start :=
        (bounds_of_mem_tokens (hmem _ hlastMem) hfit).1
      have hfirst : min offset.toUInt32 last.span.start = offset.toUInt32 := if_pos hstart'
      have hend : max l.head.span.stop (offset + byteLength cs).toUInt32 =
          (offset + byteLength cs).toUInt32 := if_pos hbounds
      have hone : min line.toUInt32 line.toUInt32 = line.toUInt32 := ite_self _
      simp only [Span.merge, hheadLine, hline _ hlastMem, hstart, hstop', hfirst, hend, hone,
        Span.ofNat]

end HackVM.Source

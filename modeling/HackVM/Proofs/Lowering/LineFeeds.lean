import HackVM.Proofs.Hack.Statements

/-!
# Counting lines by their bytes

Assembly is kept as bytes, and its lines are counted as they are written. Main statement
(`lineFeeds_render`): the count is the number of line feeds among the bytes, as long as every line
stays on one line. No other character has the byte of a line feed in its encoding
(`count_utf8EncodeChar`): a longer encoding only has bytes from 128 on.
-/

namespace HackVM.Text

/-! ## Characters -/

/-- A byte from 128 on is no line feed. -/
theorem newline_ne_ofNat {n : Nat} (hlow : 128 ≤ n) (hhigh : n < 256) :
    (10 : UInt8) ≠ UInt8.ofNat n := by
  intro h
  have hnat := congrArg UInt8.toNat h
  rw [UInt8.toNat_ofNat', Nat.mod_eq_of_lt hhigh] at hnat
  have hten : (10 : UInt8).toNat = 10 := rfl
  omega

/-- No character of more than one byte has the byte of a line feed. -/
theorem newline_notMem_utf8EncodeChar {c : Char} (h : 127 < c.val.toNat) :
    (10 : UInt8) ∉ String.utf8EncodeChar c := by
  have hbytes : ∀ b ∈ String.utf8EncodeChar c, ∃ n, 128 ≤ n ∧ n < 256 ∧ b = UInt8.ofNat n := by
    unfold String.utf8EncodeChar
    dsimp only
    rw [if_neg (by omega)]
    split_ifs <;> intro b hb <;> simp only [List.mem_cons, List.not_mem_nil, or_false] at hb
    · rcases hb with rfl | rfl <;> exact ⟨_, by omega, by omega, rfl⟩
    · rcases hb with rfl | rfl | rfl <;> exact ⟨_, by omega, by omega, rfl⟩
    · rcases hb with rfl | rfl | rfl | rfl <;> exact ⟨_, by omega, by omega, rfl⟩
  intro hmem
  obtain ⟨n, hlow, hhigh, heq⟩ := hbytes 10 hmem
  exact newline_ne_ofNat hlow hhigh heq

/-- Only a line feed has the byte of a line feed. -/
theorem count_utf8EncodeChar (c : Char) :
    (String.utf8EncodeChar c).count 10 = if c = '\n' then 1 else 0 := by
  have hnewline : c = '\n' ↔ c.val.toNat = 10 := by
    rw [← Char.val_inj, ← UInt32.toNat_inj]
    rfl
  by_cases hone : c.val.toNat ≤ 127
  · have hbyte : UInt8.ofNat c.val.toNat = 10 ↔ c.val.toNat = 10 := by
      rw [← UInt8.toNat_inj, UInt8.toNat_ofNat', Nat.mod_eq_of_lt (by omega)]
      rfl
    rw [String.utf8EncodeChar, if_pos hone, List.count_singleton]
    simp only [beq_iff_eq, hbyte, hnewline]
  · rw [List.count_eq_zero_of_not_mem (newline_notMem_utf8EncodeChar (by omega)), if_neg]
    rw [hnewline]
    omega

/-! ## Texts -/

/-- The number of line feeds among bytes. -/
def lineFeeds (bytes : ByteArray) : Nat :=
  bytes.data.toList.count 10

/-- The bytes of a text are those of its characters, one behind the other. -/
theorem data_toUTF8 (s : String) :
    s.toUTF8.data.toList = s.toList.flatMap String.utf8EncodeChar := by
  conv_lhs => rw [← String.ofList_toList (s := s)]
  rw [String.toUTF8_eq_toByteArray, String.toByteArray_ofList, List.utf8Encode,
    List.data_toByteArray]

/-- The line feeds among the bytes of a text are those among its characters. -/
theorem lineFeeds_toUTF8 (s : String) : lineFeeds s.toUTF8 = s.toList.count '\n' := by
  rw [lineFeeds, data_toUTF8]
  induction s.toList with
  | nil => rfl
  | cons c cs ih =>
      rw [List.flatMap_cons, List.count_append, ih, count_utf8EncodeChar, List.count_cons,
        Nat.add_comm]
      simp only [beq_iff_eq]

end HackVM.Text

namespace HackVM.Lowering

open Text

/-- Lines are counted by their line feeds if they hold none. -/
theorem lineFeeds_render_of_notMem {ls : List AsmLine} (h : ∀ l ∈ ls, '\n' ∉ l.text.toList) :
    lineFeeds (render ls).toUTF8 = ls.length := by
  rw [lineFeeds_toUTF8]
  induction ls with
  | nil => rfl
  | cons l ls ih =>
      rw [List.forall_mem_cons] at h
      rw [render, String.toList_append, String.toList_append, List.count_append, List.count_append,
        ih h.2, List.count_eq_zero_of_not_mem h.1, Nat.zero_add, List.length_cons, Nat.add_comm]
      rfl

/-- **Lines are counted by their line feeds.** -/
theorem lineFeeds_render {ls : List AsmLine} (h : ∀ l ∈ ls, l.Legible) :
    lineFeeds (render ls).toUTF8 = ls.length :=
  lineFeeds_render_of_notMem fun l hl => AsmLine.newline_notMem_text (h l hl)

end HackVM.Lowering

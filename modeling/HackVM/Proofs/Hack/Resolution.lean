import HackVM.Proofs.Hack.Passes

/-!
# What the symbols of a program stand for

The two passes of the assembler, seen from the text alone. A code line that starts with a
parenthesis defines a label (`labelOf?`), every other one becomes an operation, and a line that
starts with `@` uses an operand (`operandOf?`). The *variables* of a text are the operands that are
neither numbers nor predefined nor labels, in the order of their first use (`variablesOf`).

Main statement (`symbols_resolved`): if a text whose labels are closed is assembled, then its
operations are those of its lines in order, labels stand for the number of operations before them,
variables for the cells from 16 on, and every operand has the value that its name has in the end.

The proof has three parts:

* the passes read what the lines say (`definition?_ofText`, `operand?_ofText`), so they count alike;
* a second pass that succeeds had cells enough for its variables (`room_of_encodeFrom`), so the
  program has the closed form that `Hack.Passes` gives it (`assembled_of_assemble`);
* an operand is a number or ends up in the table (`isSome_lookup_of_operand`).
-/

namespace HackVM.Hack

open Text

/-! ## Code lines -/

/-- The code lines of a text: cut at a comment, without the blanks around them, and not empty. -/
def codeTexts (text : String) : List (List Char) :=
  ((lines text.toList).map codeOf).filter fun cs => !cs.isEmpty

/-- The statements of a text are those of its code texts, one each. -/
theorem statements_eq_map (text : String) :
    statements text = (codeTexts text).map Statement.ofText :=
  rfl

/-- The label that a code line defines: what stands between its parentheses. -/
def labelOf? : List Char → Option String
  | '(' :: cs => some (String.ofList cs.dropLast)
  | _ => none

/-- The operand that a code line loads. -/
def operandOf? : List Char → Option String
  | '@' :: cs => some (String.ofList cs)
  | _ => none

/-- If the line starts a label, it also ends it. -/
def Closed (code : List Char) : Prop :=
  code.head? = some '(' → code.getLast? = some ')'

instance (code : List Char) : Decidable (Closed code) :=
  inferInstanceAs (Decidable (_ → _))

/-- The number of operations that code lines become. -/
def operationCount (codes : List (List Char)) : Nat :=
  codes.countP fun code => (labelOf? code).isNone

/-- Whether an operand of a text is a variable: no number, not predefined, and no label of the
text. -/
def IsVariable (text operand : String) : Prop :=
  numeral? operand = none ∧ predefined.lookup operand = none ∧
    operand ∉ (codeTexts text).filterMap labelOf?

instance (text operand : String) : Decidable (IsVariable text operand) :=
  inferInstanceAs (Decidable (_ ∧ _ ∧ _))

/-- The variables of a text, in the order of their first use. -/
def variablesOf (text : String) : List String :=
  (((codeTexts text).filterMap operandOf?).filter fun operand => IsVariable text operand).eraseDups

/-- What a code line that is no label becomes. An operand is a number if it spells one that fits a
word, and else what the name stands for in the finished program. -/
def Program.Encodes (p : Program) (code : List Char) (op : Operation) : Prop :=
  match operandOf? code with
  | some operand =>
    ∃ value, op = .load value ∧ (numeral? operand).or (p.symbol? operand) = some value
  | none => op = .compute (Compute.ofText code)

/-! ## Both passes read the lines alike -/

/-- A closed line is a label, the load of an operand, or a computation. -/
theorem ofText_cases {code : List Char} (h : Closed code) :
    (∃ name, labelOf? code = some name ∧ operandOf? code = none ∧
      Statement.ofText code = .define name) ∨
      (∃ operand, labelOf? code = none ∧ operandOf? code = some operand ∧
        Statement.ofText code = .load operand) ∨
      labelOf? code = none ∧ operandOf? code = none ∧
        Statement.ofText code = .compute (Compute.ofText code) := by
  unfold Statement.ofText
  split
  · next cs =>
      have hlast : cs.getLast? = some ')' := by
        have hcode := h rfl
        cases cs with
        | nil => cases hcode
        | cons c cs => rwa [List.getLast?_cons_cons] at hcode
      rw [if_pos hlast]
      exact .inl ⟨_, rfl, rfl, rfl⟩
  · exact .inr (.inl ⟨_, rfl, rfl, rfl⟩)
  · next hopen hload =>
      refine .inr (.inr ⟨?_, ?_, rfl⟩)
      · unfold labelOf?
        split
        · next cs => exact absurd rfl (hopen cs)
        · rfl
      · unfold operandOf?
        split
        · next cs => exact absurd rfl (hload cs)
        · rfl

/-- A code text defines the label that is written in it. -/
theorem definition?_ofText {code : List Char} (h : Closed code) :
    (Statement.ofText code).definition? = labelOf? code := by
  rcases ofText_cases h with
      ⟨name, hlabel, -, hread⟩ | ⟨operand, hlabel, -, hread⟩ | ⟨hlabel, -, hread⟩ <;>
    rw [hlabel, hread] <;> rfl

/-- A code text loads the operand that is written in it. -/
theorem operand?_ofText {code : List Char} (h : Closed code) :
    (Statement.ofText code).operand? = operandOf? code := by
  rcases ofText_cases h with
      ⟨name, -, hoperand, hread⟩ | ⟨operand, -, hoperand, hread⟩ | ⟨-, hoperand, hread⟩ <;>
    rw [hoperand, hread] <;> rfl

section closed

variable {codes : List (List Char)} (h : ∀ code ∈ codes, Closed code)
include h

theorem definitions_map_ofText :
    definitions (codes.map Statement.ofText) = codes.filterMap labelOf? := by
  rw [definitions, List.filterMap_map]
  exact List.filterMap_congr fun code hcode => definition?_ofText (h code hcode)

theorem operands_map_ofText :
    (codes.map Statement.ofText).filterMap Statement.operand? = codes.filterMap operandOf? := by
  rw [List.filterMap_map]
  exact List.filterMap_congr fun code hcode => operand?_ofText (h code hcode)

/-- The operations of a text are counted in its code texts. -/
theorem extent_map_ofText : extent (codes.map Statement.ofText) = operationCount codes := by
  rw [extent, operationCount, List.countP_map]
  refine List.countP_congr fun code hcode => ?_
  rw [Function.comp_apply, definition?_ofText (h code hcode)]

end closed

/-! ## The program that was assembled -/

/-- Only a load has an operand. -/
theorem Statement.eq_load_of_operand? {st : Statement} {operand : String}
    (h : st.operand? = some operand) : st = .load operand := by
  cases st with
  | load o => rw [Option.some.inj h]
  | _ => cases h

/-- A variable that finds no cell left stops the pass. -/
theorem Symbols.resolve_full {s : Symbols} {operand : String}
    (h : isVariable s.table operand = true) (hroom : ¬ s.nextCell < Word.maxUnsigned) :
    s.resolve operand = .error .tooLarge := by
  rw [isVariable, Bool.and_eq_true, Option.isNone_iff_eq_none, Option.isNone_iff_eq_none] at h
  rw [resolve, h.1]
  simp only [h.2, nextCount, if_neg hroom]
  rfl

/-- A second pass that succeeds had cells enough. -/
theorem room_of_encodeFrom {s : Symbols} {ss : List Statement} {r : List Operation × Symbols}
    (hs : s.nextCell ≤ Word.maxUnsigned) (h : encodeFrom s ss = .ok r) :
    s.nextCell + (newVariables s.table ss).length ≤ Word.maxUnsigned := by
  induction ss generalizing s r with
  | nil => simpa [newVariables] using hs
  | cons st ss ih =>
      cases hst : st.operand? with
      | none =>
          rw [newVariables_cons_known (by simp [hst])]
          rw [encodeFrom_cons_plain hst []] at h
          cases hrest : encodeFrom s ss with
          | error e =>
              rw [hrest] at h
              cases h
          | ok r' => exact ih hs hrest
      | some operand =>
          obtain rfl := Statement.eq_load_of_operand? hst
          rw [encodeFrom] at h
          simp only [bind, Except.bind] at h
          cases hvar : isVariable s.table operand with
          | false =>
              rw [newVariables_cons_known (by simpa [Statement.operand?] using hvar)]
              rw [Symbols.resolve_known hvar] at h
              cases hrest : encodeFrom s ss with
              | error e => simp [hrest] at h
              | ok r' => exact ih hs hrest
          | true =>
              rw [newVariables_cons_new (BitVec.ofNat 16 s.nextCell) hvar, List.length_cons]
              by_cases hroom : s.nextCell < Word.maxUnsigned
              · rw [Symbols.resolve_new hvar hroom] at h
                cases hrest : encodeFrom
                    ⟨(operand, BitVec.ofNat 16 s.nextCell) :: s.table, s.nextCell + 1⟩ ss with
                | error e => simp [hrest] at h
                | ok r' =>
                    have hfit := ih (by exact hroom) hrest
                    simp only at hfit
                    omega
              · rw [Symbols.resolve_full hvar hroom] at h
                cases h

/-- **Assembly in closed form**: an assembled program is the one that its statements place. -/
theorem assembled_of_assemble {text : String} {p : Program} (h : assemble text = .ok p) :
    Placeable (statements text) ∧
      firstVariable + (newVariables (labelsOf (statements text)).symbols (statements text)).length ≤
        Word.maxUnsigned ∧
      p = programOf (statements text) := by
  simp only [assemble, bind, Except.bind] at h
  cases hlabels : collectLabels (statements text) with
  | error e => simp [hlabels] at h
  | ok l =>
      obtain ⟨hplace, rfl⟩ := collectLabels_eq_ok_iff.mp hlabels
      rw [hlabels] at h
      cases hencode :
        encodeFrom { table := (labelsOf (statements text)).symbols } (statements text) with
      | error e => simp [hencode] at h
      | ok r =>
          have hroom := room_of_encodeFrom (Nat.le_of_ble_eq_true rfl) hencode
          simp only [encodeFrom_eq_ok hroom] at h
          cases h
          exact ⟨hplace, hroom, rfl⟩

/-- An operand is a number, or it is in the table in the end. -/
theorem isSome_lookup_of_operand {ss : List Statement} {operand : String}
    (hmem : operand ∈ ss.filterMap Statement.operand?) (hnumeral : numeral? operand = none) :
    ((symbolsOf ss).lookup operand).isSome = true := by
  cases hknown : (labelsOf ss).symbols.lookup operand with
  | some value =>
      have hafter : (symbolsOf ss).lookup operand = some value :=
        Symbols.lookup_after (s := { table := (labelsOf ss).symbols }) hknown
      rw [hafter]
      rfl
  | none =>
      have hnew : operand ∈ newVariables (labelsOf ss).symbols ss := by
        rw [newVariables, List.mem_eraseDups, List.mem_filter]
        exact ⟨hmem, by simp [isVariable, hnumeral, hknown]⟩
      have hafter :=
        Symbols.lookup_after_newVariables (s := { table := (labelsOf ss).symbols }) hnew
      rw [symbolsOf, hafter]
      rfl

/-- The operation of a line that is no label. -/
theorem encodes_of_closed {text : String} (hclosed : ∀ code ∈ codeTexts text, Closed code)
    {code : List Char} (hcode : code ∈ codeTexts text) (hlabel : labelOf? code = none) :
    ∃ op, (Statement.ofText code).operation? (symbolsOf (statements text)) = some op ∧
      (programOf (statements text)).Encodes code op := by
  rcases ofText_cases (hclosed code hcode) with
      ⟨name, hname, -, -⟩ | ⟨operand, -, hoperand, hread⟩ |
    ⟨-, hoperand, hread⟩
  · rw [hname] at hlabel
    cases hlabel
  · refine ⟨_, by rw [hread]; rfl, ?_⟩
    rw [Program.Encodes, hoperand]
    refine ⟨_, rfl, ?_⟩
    rw [valueIn, Program.symbol?]
    cases hnumeral : numeral? operand with
    | some n => rfl
    | none =>
        have hmem : operand ∈ (statements text).filterMap Statement.operand? := by
          rw [statements_eq_map, operands_map_ofText hclosed]
          exact List.mem_filterMap.mpr ⟨code, hcode, hoperand⟩
        obtain ⟨value, hvalue⟩ :=
          Option.isSome_iff_exists.mp (isSome_lookup_of_operand hmem hnumeral)
        rw [programOf, hvalue]
        rfl
  · refine ⟨_, by rw [hread]; rfl, ?_⟩
    rw [Program.Encodes, hoperand]

/-- Lines become operations one by one; labels become none. -/
theorem forall₂_encodes {text : String} (hclosed : ∀ code ∈ codeTexts text, Closed code)
    {codes : List (List Char)} (hsub : codes ⊆ codeTexts text) :
    List.Forall₂ (programOf (statements text)).Encodes
      (codes.filter fun code => (labelOf? code).isNone)
      ((codes.map Statement.ofText).filterMap
        (Statement.operation? (symbolsOf (statements text)))) := by
  induction codes with
  | nil => exact .nil
  | cons code codes ih =>
      rw [List.cons_subset] at hsub
      have hrest := ih hsub.2
      rw [List.map_cons]
      cases hlabel : labelOf? code with
      | some name =>
          have hread := definition?_ofText (hclosed code hsub.1)
          have hnone : (Statement.ofText code).operation? (symbolsOf (statements text)) = none := by
            cases hst : Statement.ofText code <;>
              simp_all [Statement.definition?, Statement.operation?]
          rw [List.filter_cons_of_neg (by simp [hlabel]), List.filterMap_cons_none hnone]
          exact hrest
      | none =>
          obtain ⟨op, hop, hencodes⟩ := encodes_of_closed hclosed hsub.1 hlabel
          rw [List.filter_cons_of_pos (by simp [hlabel]), List.filterMap_cons_some hop]
          exact .cons hencodes hrest

/-! ## Variables -/

/-- The second pass finds the variables of the text. -/
theorem newVariables_statements {text : String} (hclosed : ∀ code ∈ codeTexts text, Closed code) :
    newVariables (labelsOf (statements text)).symbols (statements text) = variablesOf text := by
  rw [newVariables, variablesOf]
  congr 1
  rw [statements_eq_map, operands_map_ofText hclosed, ← statements_eq_map]
  refine List.filter_congr fun operand _ => ?_
  rw [Bool.eq_iff_iff, decide_eq_true_iff, isVariable, Bool.and_eq_true, Option.isNone_iff_eq_none,
    Option.isNone_iff_eq_none, lookup_labelsOf_eq_none_iff, statements_eq_map,
    definitions_map_ofText hclosed, IsVariable, and_comm (a := operand ∉ _)]

/-- The `k`th variable of the text gets the `k`th cell from 16 on. -/
theorem toNat_lookup_variable {text : String} (hclosed : ∀ code ∈ codeTexts text, Closed code)
    (hroom : firstVariable + (variablesOf text).length ≤ Word.maxUnsigned) {k : Nat} {name : String}
    (hk : (variablesOf text)[k]? = some name) :
    ((symbolsOf (statements text)).lookup name).map BitVec.toNat = some (16 + k) := by
  have hnew := newVariables_statements hclosed
  obtain ⟨hlt, hget⟩ := List.getElem?_eq_some_iff.mp hk
  have hidx : (variablesOf text).idxOf name = k := by
    rw [← hget]
    exact (nodup_eraseDups _).idxOf_getElem k hlt
  have hmem : name ∈ newVariables (labelsOf (statements text)).symbols (statements text) := by
    rw [hnew]
    exact List.mem_of_getElem? hk
  have hlookup :=
    Symbols.lookup_after_newVariables (s := { table := (labelsOf (statements text)).symbols }) hmem
  rw [hnew, hidx] at hlookup
  rw [symbolsOf, hlookup]
  -- the cell fits a word, since the pass had room for it
  have hword : 16 + k < 65536 := by
    simp only [firstVariable, Word.maxUnsigned] at hroom
    omega
  rw [Option.map_some, BitVec.toNat_ofNat]
  exact congrArg some (Nat.mod_eq_of_lt hword)

/-! ## Labels -/

/-- A label of the text stands for the number of operations before it. -/
theorem toNat_lookup_label {text : String} (hclosed : ∀ code ∈ codeTexts text, Closed code)
    (hplace : Placeable (statements text)) {before after : List (List Char)} {code : List Char}
    {name : String} (hcodes : codeTexts text = before ++ code :: after)
    (hlabel : labelOf? code = some name) :
    ((symbolsOf (statements text)).lookup name).map BitVec.toNat =
      some (operationCount before) := by
  have hbefore : ∀ c ∈ before, Closed c :=
    fun c hc => hclosed c (by rw [hcodes]; exact List.mem_append_left _ hc)
  have hcode : Statement.ofText code = .define name := by
    rcases ofText_cases (hclosed code (by simp [hcodes])) with
        ⟨n, hn, -, hread⟩ | ⟨_, hn, -⟩ | ⟨hn, -⟩
    · rw [hn] at hlabel
      cases hlabel
      exact hread
    · rw [hn] at hlabel
      cases hlabel
    · rw [hn] at hlabel
      cases hlabel
  have hss : statements text =
      before.map Statement.ofText ++ .define name :: after.map Statement.ofText := by
    rw [statements_eq_map, hcodes, List.map_append, List.map_cons, hcode]
  have hle : operationCount before ≤ Word.maxUnsigned := by
    have hextent := hplace.extent_le
    rw [hss, extent_append, extent_map_ofText hbefore] at hextent
    omega
  rw [hplace.lookup_label hss, extent_map_ofText hbefore, Option.map_some, BitVec.toNat_ofNat]
  exact congrArg some (Nat.mod_eq_of_lt (Nat.lt_succ_of_le hle))

/-! ## The main statement -/

/-- **The assembler resolves every symbol.** If a text is assembled, and every line that starts a
label also ends it, then

* the program has one operation for each line that is no label, in order, and an operand is loaded
  as the number it spells, or else as what its name stands for in the finished program;
* a label stands for the number of operations before it, wherever it is used;
* the variables of the text, in the order of their first use, stand for 16, 17, and so on;
* so no two of them share a cell. -/
theorem symbols_resolved {text : String} {p : Program}
    (hclosed : ∀ code ∈ codeTexts text, Closed code) (h : assemble text = .ok p) :
    List.Forall₂ p.Encodes ((codeTexts text).filter fun code => (labelOf? code).isNone)
      p.rom.toList ∧
      (∀ before code after name, codeTexts text = before ++ code :: after →
        labelOf? code = some name →
        (p.symbol? name).map BitVec.toNat = some (operationCount before)) ∧
      (∀ k name, (variablesOf text)[k]? = some name →
        (p.symbol? name).map BitVec.toNat = some (16 + k)) ∧
      ∀ u ∈ variablesOf text, ∀ v ∈ variablesOf text, p.symbol? u = p.symbol? v → u = v := by
  obtain ⟨hplace, hroom, rfl⟩ := assembled_of_assemble h
  rw [newVariables_statements hclosed] at hroom
  have hvariable : ∀ k name, (variablesOf text)[k]? = some name →
      ((symbolsOf (statements text)).lookup name).map BitVec.toNat = some (16 + k) :=
    fun k name hk => toNat_lookup_variable hclosed hroom hk
  refine ⟨?_, fun before code after name => toNat_lookup_label hclosed hplace, hvariable, ?_⟩
  · exact forall₂_encodes hclosed (List.Subset.refl _)
  · intro u hu v hv heq
    obtain ⟨j, hj⟩ := List.mem_iff_getElem?.mp hu
    obtain ⟨k, hk⟩ := List.mem_iff_getElem?.mp hv
    have hcells : some (16 + j) = some (16 + k) := by
      rw [← hvariable j u hj, ← hvariable k v hk]
      exact congrArg (Option.map BitVec.toNat) heq
    obtain rfl : j = k := by
      have := Option.some.inj hcells
      omega
    exact Option.some.inj (hj.symm.trans hk)

/-- A label used before it is defined, one that spells a number, a variable used again, a signed
number and a predefined symbol. -/
def mixedText : String :=
  "@END // forward\n0;JMP\n  @i\nM=1\n(END)\n@+7\n@j\n@i\n@SCREEN\nD=M\n(5)\n@5\n"

/-- In `mixedText` the label `END` stands for 4 and the label `5` for 9, the variables `i` and `j`
for 16 and 17. -/
theorem symbols_resolved_of_mixedText :
    ∃ p, assemble mixedText = .ok p ∧ (∀ code ∈ codeTexts mixedText, Closed code) ∧
      List.Forall₂ p.Encodes ((codeTexts mixedText).filter fun code => (labelOf? code).isNone)
        p.rom.toList ∧
      (p.symbol? "END").map BitVec.toNat = some 4 ∧ (p.symbol? "5").map BitVec.toNat = some 9 ∧
      (p.symbol? "i").map BitVec.toNat = some 16 ∧ (p.symbol? "j").map BitVec.toNat = some 17 := by
  have hok : (assemble mixedText).toOption.isSome = true := by decide +kernel
  have hcodes : codeTexts mixedText =
      (["@END", "0;JMP", "@i", "M=1"].map String.toList) ++ "(END)".toList ::
      (["@+7", "@j", "@i", "@SCREEN", "D=M", "(5)", "@5"].map String.toList) := by
    decide +kernel
  have hcodes' : codeTexts mixedText =
      (["@END", "0;JMP", "@i", "M=1", "(END)", "@+7", "@j", "@i", "@SCREEN", "D=M"].map
        String.toList) ++
        "(5)".toList :: ["@5".toList] :=
    hcodes.trans (by decide)
  have hclosed : ∀ code ∈ codeTexts mixedText, Closed code := by
    rw [hcodes]
    decide
  have hvariables : variablesOf mixedText = ["i", "j"] := by
    rw [variablesOf, hcodes]
    decide +kernel
  rcases hp : assemble mixedText with e | p
  · rw [hp] at hok
    cases hok
  · obtain ⟨hrom, hlabel, hvariable, -⟩ := symbols_resolved hclosed hp
    rw [hvariables] at hvariable
    refine ⟨p, rfl, hclosed, hrom, ?_, ?_, hvariable 0 "i" rfl, hvariable 1 "j" rfl⟩
    · exact (hlabel _ _ _ "END" hcodes (by decide)).trans (by decide)
    · exact (hlabel _ _ _ "5" hcodes' (by decide)).trans (by decide)

end HackVM.Hack

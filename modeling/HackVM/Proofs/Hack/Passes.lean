import HackVM.Hack.Assembler
import Mathlib.Data.List.Nodup
import Mathlib.Data.List.Perm.Subperm

/-!
# The two passes of the assembler

Both passes in closed form.

* **First pass** (`foldlM_note_eq_ok_iff`). It succeeds exactly when no label is defined twice, none
  is known beforehand, and the statements take up no more addresses than a word can count. It then
  gives each label the number of operations before it (`labelEntries`).
* **Second pass** (`encodeFrom_eq_ok`). The *variables* of a program are the operands that are
  neither numbers nor known, in the order of their first use. They get consecutive cells, and every
  operand is given the value that the table has in the end, also where it is used before that value
  is known.

`assemble_eq_ok_iff` puts the two together.
-/

namespace HackVM.Hack

/-! ## Tables -/

/-- In a table without repeated names, an entry is found under its name. -/
theorem lookup_of_mem {table : SymbolTable} {name : String} {value : Word}
    (hnodup : (table.map Prod.fst).Nodup) (hmem : (name, value) ∈ table) :
    table.lookup name = some value := by
  induction table with
  | nil => cases hmem
  | cons entry table ih =>
      rw [List.map_cons, List.nodup_cons] at hnodup
      rcases List.mem_cons.mp hmem with rfl | hmem
      · exact List.lookup_cons_self
      · have hne : (name == entry.1) = false := by
          rw [beq_eq_false_iff_ne]
          rintro rfl
          exact hnodup.1 (List.mem_map.mpr ⟨_, hmem, rfl⟩)
        rw [List.lookup_cons, hne]
        exact ih hnodup.2 hmem

/-- A name is found exactly if it heads an entry. -/
theorem lookup_eq_none_iff_notMem {table : SymbolTable} {name : String} :
    table.lookup name = none ↔ name ∉ table.map Prod.fst := by
  rw [List.lookup_eq_none_iff]
  constructor
  · intro h hmem
    obtain ⟨entry, hentry, rfl⟩ := List.mem_map.mp hmem
    simpa using h entry hentry
  · intro h entry hentry
    simpa using fun heq : name = entry.1 => h (heq ▸ List.mem_map_of_mem hentry)

/-- A name is unknown behind a new entry if it is another name and was unknown before. -/
theorem lookup_cons_eq_none_iff {table : SymbolTable} {name n : String} {value : Word} :
    ((name, value) :: table : SymbolTable).lookup n = none ↔ n ≠ name ∧ table.lookup n = none := by
  rw [List.lookup_cons]
  by_cases h : n = name
  · simp [h]
  · have hbeq : (n == name) = false := by simpa using h
    rw [hbeq]
    exact (and_iff_right h).symm

/-! ## First pass -/

/-- The label that a statement defines. -/
def Statement.definition? : Statement → Option String
  | .define name => some name
  | _ => none

/-- The labels that statements define, in order. -/
def definitions (ss : List Statement) : List String :=
  ss.filterMap Statement.definition?

/-- The number of addresses that statements take up. -/
def extent (ss : List Statement) : Nat :=
  ss.countP fun s => s.definition?.isNone

/-- The labels of statements with their addresses, if the statements start at the given one. -/
def labelEntries (address : Nat) : List Statement → SymbolTable
  | [] => []
  | s :: rest =>
    match s.definition? with
    | some name => (name, BitVec.ofNat 16 address) :: labelEntries address rest
    | none => labelEntries (address + 1) rest

/-- Operations are counted along the statements. -/
theorem extent_append (ss ts : List Statement) : extent (ss ++ ts) = extent ss + extent ts :=
  List.countP_append

/-- The entries of the first pass carry the names of the definitions. -/
theorem map_fst_labelEntries (address : Nat) (ss : List Statement) :
    (labelEntries address ss).map Prod.fst = definitions ss := by
  induction ss generalizing address with
  | nil => rfl
  | cons s ss ih =>
      rw [labelEntries, definitions, List.filterMap_cons]
      cases s.definition? with
      | none => exact ih _
      | some name => exact congrArg (name :: ·) (ih _)

/-- A label is entered with the number of addresses taken up before it. -/
theorem mem_labelEntries {address : Nat} {before after : List Statement} {name : String} :
    (name, BitVec.ofNat 16 (address + extent before)) ∈
      labelEntries address (before ++ .define name :: after) := by
  induction before generalizing address with
  | nil => exact List.mem_cons_self
  | cons s before ih =>
      rw [List.cons_append, labelEntries]
      cases hs : s.definition? with
      | none =>
          have : address + extent (s :: before) = address + 1 + extent before := by
            simp [extent, hs]
            omega
          rw [this]
          exact ih
      | some label =>
          have : extent (s :: before) = extent before := by simp [extent, hs]
          rw [this]
          exact List.mem_cons_of_mem _ ih

/-- What a statement changes, by whether it defines a label. -/
theorem Labels.note_define {l : Labels} {s : Statement} {name : String}
    (hs : s.definition? = some name) :
    l.note s = if l.symbols.lookup name = none then
      .ok { l with
        symbols := (name, BitVec.ofNat 16 l.address) :: l.symbols
        names := l.names ++ [name] }
    else .error (.duplicateLabel name) := by
  cases s <;> cases hs
  rw [note]
  cases l.symbols.lookup name <;> simp

/-- A statement that defines nothing takes the next address, if one is left. -/
theorem Labels.note_other {l : Labels} {s : Statement} (hs : s.definition? = none) :
    l.note s = if l.address < Word.maxUnsigned then .ok { l with address := l.address + 1 }
      else .error .tooLarge := by
  cases s with
  | define name => cases hs
  | _ =>
      rw [note]
      · rw [nextCount]
        split_ifs <;> rfl
      · intro _ h
        cases h

/-- **The first pass** from a state that it may have reached. -/
theorem foldlM_note_eq_ok_iff {l l' : Labels} {ss : List Statement}
    (hl : l.address ≤ Word.maxUnsigned) :
    ss.foldlM Labels.note l = .ok l' ↔
      ((definitions ss).Nodup ∧ (∀ name ∈ definitions ss, l.symbols.lookup name = none) ∧
        l.address + extent ss ≤ Word.maxUnsigned) ∧
      l' = ⟨(labelEntries l.address ss).reverse ++ l.symbols, l.names ++ definitions ss,
        l.address + extent ss⟩ := by
  induction ss generalizing l with
  | nil =>
      simp only [List.foldlM_nil, definitions, extent, labelEntries, pure, Except.pure]
      constructor
      · rintro ⟨⟩
        simpa using hl
      · rintro ⟨-, rfl⟩
        simp
  | cons s ss ih =>
      rw [List.foldlM_cons]
      cases hs : s.definition? with
      | some name =>
          have hdefs : definitions (s :: ss) = name :: definitions ss := by
            simp [definitions, hs]
          have hextent : extent (s :: ss) = extent ss := by simp [extent, hs]
          rw [Labels.note_define hs, hdefs, hextent, labelEntries, hs]
          by_cases hlookup : l.symbols.lookup name = none
          · rw [if_pos hlookup]
            simp only [bind, Except.bind]
            rw [ih (by exact hl)]
            simp only [lookup_cons_eq_none_iff, List.nodup_cons, List.mem_cons, forall_eq_or_imp,
              List.reverse_cons, List.append_assoc, List.singleton_append, hlookup, true_and]
            -- the names behind `name` must not be known: those of the table, and `name` itself
            have hrest : (∀ n ∈ definitions ss, n ≠ name ∧ l.symbols.lookup n = none) ↔
                name ∉ definitions ss ∧ ∀ n ∈ definitions ss, l.symbols.lookup n = none := by
              constructor
              · intro h
                exact ⟨fun hmem => (h name hmem).1 rfl, fun n hn => (h n hn).2⟩
              · rintro ⟨hname, h⟩ n hn
                exact ⟨fun heq => hname (heq ▸ hn), h n hn⟩
            rw [hrest]
            tauto
          · rw [if_neg hlookup]
            simp only [bind, Except.bind]
            constructor
            · rintro ⟨⟩
            · rintro ⟨⟨-, h, -⟩, -⟩
              exact absurd (h name List.mem_cons_self) hlookup
      | none =>
          have hdefs : definitions (s :: ss) = definitions ss := by simp [definitions, hs]
          have hextent : extent (s :: ss) = extent ss + 1 := by simp [extent, hs]
          rw [Labels.note_other hs, hdefs, hextent, labelEntries, hs]
          by_cases hroom : l.address < Word.maxUnsigned
          · rw [if_pos hroom]
            simp only [bind, Except.bind]
            rw [ih (by exact hroom)]
            simp only [Nat.add_assoc, Nat.add_comm 1 (extent ss)]
          · rw [if_neg hroom]
            simp only [bind, Except.bind]
            constructor
            · rintro ⟨⟩
            · rintro ⟨⟨-, -, h⟩, -⟩
              omega

/-- A first pass with enough addresses can only fail at a label. -/
theorem foldlM_note_eq_error {l : Labels} {ss : List Statement} {e : AssemblyFault}
    (h : ss.foldlM Labels.note l = .error e) (hfit : l.address + extent ss ≤ Word.maxUnsigned) :
    ∃ name, e = .duplicateLabel name := by
  induction ss generalizing l with
  | nil => cases h
  | cons s ss ih =>
      rw [List.foldlM_cons] at h
      cases hs : s.definition? with
      | some name =>
          have hextent : extent (s :: ss) = extent ss := by simp [extent, hs]
          rw [Labels.note_define hs] at h
          split_ifs at h
          · exact ih h (hextent ▸ hfit)
          · cases h
            exact ⟨name, rfl⟩
      | none =>
          have hextent : extent (s :: ss) = extent ss + 1 := by simp [extent, hs]
          rw [Labels.note_other hs, if_pos (by omega)] at h
          exact ih h (by simp only; omega)

/-! ## Second pass -/

/-- The operand that a statement loads. -/
def Statement.operand? : Statement → Option String
  | .load operand => some operand
  | _ => none

/-- Whether an operand is a variable to a program with the given symbols: no number, and not
known. -/
def isVariable (table : SymbolTable) (operand : String) : Bool :=
  (numeral? operand).isNone && (table.lookup operand).isNone

/-- A number or a name of the table is no variable. -/
theorem filter_isVariable_of_known {table : SymbolTable} {name : String}
    (h : numeral? name ≠ none ∨ table.lookup name ≠ none) :
    (some name).filter (isVariable table) = none := by
  have hfalse : isVariable table name = false := by
    rw [isVariable, Bool.and_eq_false_iff, Option.isNone_eq_false_iff, Option.isNone_eq_false_iff,
      Option.isSome_iff_ne_none, Option.isSome_iff_ne_none]
    exact h
  simp [Option.filter, hfalse]

/-- The variables of statements, in the order of their first use. -/
def newVariables (table : SymbolTable) (ss : List Statement) : List String :=
  ((ss.filterMap Statement.operand?).filter (isVariable table)).eraseDups

/-- Names with consecutive cells, the latest first. -/
def cellEntries (first : Nat) (names : List String) : SymbolTable :=
  ((names.zipIdx first).map fun (name, cell) => (name, BitVec.ofNat 16 cell)).reverse

/-- The value of an operand to a program with the given symbols. -/
def valueIn (table : SymbolTable) (operand : String) : Word :=
  (numeral? operand).getD ((table.lookup operand).getD 0)

/-- The operation of a statement in a program with the given symbols. -/
def Statement.operation? (table : SymbolTable) : Statement → Option Operation
  | .load operand => some (.load (valueIn table operand))
  | .compute c => some (.compute c)
  | _ => none

/-- Names without repetitions are pairwise distinct. -/
theorem nodup_eraseDups (names : List String) : names.eraseDups.Nodup := by
  induction h : names.length using Nat.strongRecOn generalizing names with
  | ind n ih =>
      cases names with
      | nil => simp
      | cons name names =>
          rw [List.eraseDups_cons, List.nodup_cons]
          constructor
          · simp [List.mem_eraseDups]
          · have hlen := List.length_filter_le (fun b => !b == name) names
            exact ih _ (by simp only [List.length_cons] at h; omega) _ rfl

/-- A name that gets a cell was unknown before. -/
theorem isVariable_of_mem {table : SymbolTable} {ss : List Statement} {name : String}
    (h : name ∈ newVariables table ss) : isVariable table name = true :=
  (List.mem_filter.mp (List.mem_eraseDups.mp h)).2

/-- The first name gets the first cell, and stands behind the later ones in the table. -/
theorem cellEntries_cons (first : Nat) (name : String) (names : List String) :
    cellEntries first (name :: names) =
      cellEntries (first + 1) names ++ [(name, BitVec.ofNat 16 first)] := by
  simp [cellEntries, List.zipIdx_cons]

/-- The entries of the second pass carry the names that got a cell. -/
theorem map_fst_cellEntries (first : Nat) (names : List String) :
    (cellEntries first names).map Prod.fst = names.reverse := by
  simp [cellEntries, Function.comp_def, ← List.unzip_fst]

/-- A first use of a variable comes before those of the others. -/
theorem newVariables_cons_new {table : SymbolTable} {ss : List Statement} {operand : String}
    (value : Word) (h : isVariable table operand = true) :
    newVariables table (.load operand :: ss) =
      operand :: newVariables ((operand, value) :: table) ss := by
  have hfilter : ((ss.filterMap Statement.operand?).filter (isVariable table)).filter
      (fun b => !b == operand) =
      (ss.filterMap Statement.operand?).filter (isVariable ((operand, value) :: table)) := by
    rw [List.filter_filter]
    refine List.filter_congr fun name _ => ?_
    rw [isVariable, isVariable, List.lookup_cons]
    cases name == operand <;> simp
  rw [newVariables, List.filterMap_cons]
  simp only [Statement.operand?]
  rw [List.filter_cons_of_pos h, List.eraseDups_cons, hfilter, newVariables]

/-- Any other statement adds no variable. -/
theorem newVariables_cons_known {table : SymbolTable} {s : Statement} {ss : List Statement}
    (h : ∀ operand ∈ s.operand?, isVariable table operand = false) :
    newVariables table (s :: ss) = newVariables table ss := by
  rw [newVariables, newVariables, List.filterMap_cons]
  cases hs : s.operand? with
  | none => rfl
  | some operand => simp [h operand hs]

/-- Cells for other names do not change what a name means. -/
theorem lookup_cellEntries_append {first : Nat} {names : List String} {table : SymbolTable}
    {name : String} (h : name ∉ names) :
    (cellEntries first names ++ table).lookup name = table.lookup name := by
  have hnone : (cellEntries first names).lookup name = none := by
    rw [lookup_eq_none_iff_notMem]
    rwa [map_fst_cellEntries, List.mem_reverse]
  rw [List.lookup_append, hnone, Option.none_or]

/-- The symbols after a second pass. -/
def Symbols.after (s : Symbols) (ss : List Statement) : Symbols :=
  ⟨cellEntries s.nextCell (newVariables s.table ss) ++ s.table,
    s.nextCell + (newVariables s.table ss).length⟩

/-- What is known stays known with the same value. -/
theorem Symbols.lookup_after {s : Symbols} {ss : List Statement} {name : String} {value : Word}
    (h : s.table.lookup name = some value) : (s.after ss).table.lookup name = some value := by
  rw [after, lookup_cellEntries_append, h]
  intro hmem
  have := isVariable_of_mem hmem
  simp [isVariable, h] at this

/-- A statement without a new name leaves the second pass where it is. -/
theorem Symbols.after_cons_known {s : Symbols} {st : Statement} {ss : List Statement}
    (h : ∀ operand ∈ st.operand?, isVariable s.table operand = false) :
    s.after (st :: ss) = s.after ss := by
  rw [after, after, newVariables_cons_known h]

/-- A load of a new name takes the next cell. -/
theorem Symbols.after_cons_new {s : Symbols} {ss : List Statement} {operand : String}
    (h : isVariable s.table operand = true) :
    s.after (.load operand :: ss) =
      after ⟨(operand, BitVec.ofNat 16 s.nextCell) :: s.table, s.nextCell + 1⟩ ss := by
  rw [after, after, newVariables_cons_new (BitVec.ofNat 16 s.nextCell) h, cellEntries_cons]
  simp [Nat.add_assoc, Nat.add_comm 1]

/-- A statement without an operand leaves the symbols alone. -/
theorem encodeFrom_cons_plain {s : Symbols} {st : Statement} {ss : List Statement}
    (h : st.operand? = none) (table : SymbolTable) :
    encodeFrom s (st :: ss) =
      (encodeFrom s ss).map fun (ops, s') => ((st.operation? table).toList ++ ops, s') := by
  cases st with
  | load operand => cases h
  | compute c =>
      rw [encodeFrom]
      cases encodeFrom s ss <;> rfl
  | _ =>
      rw [encodeFrom]
      cases encodeFrom s ss <;> rfl

/-- An operand that is no variable has its value already. -/
theorem Symbols.resolve_known {s : Symbols} {operand : String}
    (h : isVariable s.table operand = false) :
    s.resolve operand = .ok (valueIn s.table operand, s) := by
  rw [resolve, valueIn]
  cases hnum : numeral? operand with
  | some n => rfl
  | none =>
      cases hlookup : s.table.lookup operand with
      | some value => rfl
      | none =>
          rw [isVariable, hnum, hlookup] at h
          cases h

/-- An operand that is a variable gets the next cell. -/
theorem Symbols.resolve_new {s : Symbols} {operand : String} (h : isVariable s.table operand = true)
    (hroom : s.nextCell < Word.maxUnsigned) :
    s.resolve operand = .ok (BitVec.ofNat 16 s.nextCell,
      ⟨(operand, BitVec.ofNat 16 s.nextCell) :: s.table, s.nextCell + 1⟩) := by
  rw [isVariable, Bool.and_eq_true, Option.isNone_iff_eq_none, Option.isNone_iff_eq_none] at h
  rw [resolve, h.1]
  simp only [h.2, nextCount, if_pos hroom]
  rfl

/-- An operand that is no variable keeps its value. -/
theorem valueIn_after {s : Symbols} (ss : List Statement) {operand : String}
    (h : isVariable s.table operand = false) :
    valueIn (s.after ss).table operand = valueIn s.table operand := by
  rw [valueIn, valueIn]
  cases hnum : numeral? operand with
  | some n => rfl
  | none =>
      cases hlookup : s.table.lookup operand with
      | some value => rw [Symbols.lookup_after hlookup]
      | none =>
          rw [isVariable, hnum, hlookup] at h
          cases h

/-- A variable has the cell it got at its first use. -/
theorem valueIn_after_new {s : Symbols} (ss : List Statement) {operand : String}
    (h : isVariable s.table operand = true) :
    valueIn (s.after (.load operand :: ss)).table operand = BitVec.ofNat 16 s.nextCell := by
  have hlookup : (s.after (.load operand :: ss)).table.lookup operand =
      some (BitVec.ofNat 16 s.nextCell) := by
    rw [Symbols.after_cons_new h]
    exact Symbols.lookup_after List.lookup_cons_self
  rw [isVariable, Bool.and_eq_true, Option.isNone_iff_eq_none] at h
  rw [valueIn, h.1, hlookup]
  rfl

/-- **The second pass**: with enough cells for its variables, it gives every operand the value that
the symbols have in the end. -/
theorem encodeFrom_eq_ok {s : Symbols} {ss : List Statement}
    (hfit : s.nextCell + (newVariables s.table ss).length ≤ Word.maxUnsigned) :
    encodeFrom s ss = .ok (ss.filterMap (Statement.operation? (s.after ss).table), s.after ss) := by
  induction ss generalizing s with
  | nil => simp [encodeFrom, Symbols.after, newVariables, cellEntries]
  | cons st ss ih =>
      cases hst : st.operand? with
      | none =>
          have hknown : ∀ o ∈ st.operand?, isVariable s.table o = false := by simp [hst]
          rw [newVariables_cons_known hknown] at hfit
          rw [encodeFrom_cons_plain hst (s.after ss).table, ih hfit,
            Symbols.after_cons_known hknown, List.filterMap_cons]
          cases st.operation? (s.after ss).table <;> rfl
      | some operand =>
          obtain rfl : st = .load operand := by cases st <;> simp_all [Statement.operand?]
          rw [encodeFrom]
          cases hvar : isVariable s.table operand with
          | false =>
              have hknown : ∀ o ∈ (Statement.load operand).operand?,
                  isVariable s.table o = false := by
                simpa [Statement.operand?] using hvar
              rw [newVariables_cons_known hknown] at hfit
              rw [Symbols.resolve_known hvar]
              simp only [bind, Except.bind]
              rw [ih hfit, Symbols.after_cons_known hknown, ← valueIn_after ss hvar]
              rfl
          | true =>
              rw [newVariables_cons_new (BitVec.ofNat 16 s.nextCell) hvar, List.length_cons] at hfit
              rw [Symbols.resolve_new hvar (by omega)]
              simp only [bind, Except.bind]
              rw [ih (by simp only; omega), ← Symbols.after_cons_new hvar,
                ← valueIn_after_new ss hvar]
              rfl

/-- The `k`th variable gets the `k`th free cell. -/
theorem Symbols.lookup_after_newVariables {s : Symbols} {ss : List Statement} {name : String}
    (h : name ∈ newVariables s.table ss) :
    (s.after ss).table.lookup name =
      some (BitVec.ofNat 16 (s.nextCell + (newVariables s.table ss).idxOf name)) := by
  have hnodup : ((cellEntries s.nextCell (newVariables s.table ss)).map Prod.fst).Nodup := by
    rw [map_fst_cellEntries, List.nodup_reverse]
    exact nodup_eraseDups _
  have hmem : (name, BitVec.ofNat 16 (s.nextCell + (newVariables s.table ss).idxOf name)) ∈
      cellEntries s.nextCell (newVariables s.table ss) := by
    rw [cellEntries, List.mem_reverse, List.mem_map]
    refine ⟨(name, s.nextCell + (newVariables s.table ss).idxOf name), ?_, rfl⟩
    exact List.mk_add_mem_zipIdx_iff_getElem?.mpr (List.getElem?_idxOf h)
  rw [after, List.lookup_append, lookup_of_mem hnodup hmem, Option.some_or]

/-! ## Programs -/

/-- There are no more variables than loads. -/
theorem length_newVariables_le (table : SymbolTable) (ss : List Statement) :
    (newVariables table ss).length ≤ (ss.filterMap Statement.operand?).length := by
  have hsub : newVariables table ss ⊆ ss.filterMap Statement.operand? := fun name h =>
    (List.mem_filter.mp (List.mem_eraseDups.mp h)).1
  exact ((nodup_eraseDups _).subperm hsub).length_le

/-- The labels of statements, as the first pass leaves them. -/
def labelsOf (ss : List Statement) : Labels :=
  ⟨(labelEntries 0 ss).reverse ++ predefined, definitions ss, extent ss⟩

/-- What the first pass knows: the labels, and what was known before. -/
theorem lookup_labelsOf_eq_none_iff {ss : List Statement} {name : String} :
    (labelsOf ss).symbols.lookup name = none ↔
      name ∉ definitions ss ∧ predefined.lookup name = none := by
  rw [labelsOf, List.lookup_append, Option.or_eq_none_iff, lookup_eq_none_iff_notMem,
    List.map_reverse, List.mem_reverse, map_fst_labelEntries]

/-- The symbols of statements, as the second pass leaves them. -/
def symbolsOf (ss : List Statement) : SymbolTable :=
  (Symbols.after { table := (labelsOf ss).symbols } ss).table

/-- The program of statements. -/
def programOf (ss : List Statement) : Program where
  rom := (ss.filterMap (Statement.operation? (symbolsOf ss))).toArray
  symbols := symbolsOf ss
  labels := definitions ss

/-- What statements need to be assembled: each label is defined once, none is predefined, and the
addresses suffice. -/
structure Placeable (ss : List Statement) : Prop where
  nodup : (definitions ss).Nodup
  notPredefined : ∀ name ∈ definitions ss, predefined.lookup name = none
  extent_le : extent ss ≤ Word.maxUnsigned

/-- The first pass goes through exactly for a text that can be placed. -/
theorem collectLabels_eq_ok_iff {ss : List Statement} {l : Labels} :
    collectLabels ss = .ok l ↔ Placeable ss ∧ l = labelsOf ss := by
  rw [collectLabels, foldlM_note_eq_ok_iff (by decide)]
  simp only [Nat.zero_add, List.nil_append, labelsOf]
  refine and_congr_left' ⟨fun ⟨h₁, h₂, h₃⟩ => ⟨h₁, h₂, h₃⟩,
    fun h => ⟨h.nodup, h.notPredefined, h.extent_le⟩⟩

/-- **Assembly in closed form**, for texts in which no two loads follow each other. -/
theorem assemble_eq_ok_iff {text : String} {p : Program}
    (hloads : 2 * ((statements text).filterMap Statement.operand?).length ≤
      extent (statements text)) :
    assemble text = .ok p ↔ Placeable (statements text) ∧ p = programOf (statements text) := by
  simp only [assemble, bind, Except.bind]
  cases hlabels : collectLabels (statements text) with
  | error e =>
      have hnot : ¬ Placeable (statements text) := by
        intro hplace
        rw [collectLabels_eq_ok_iff.mpr ⟨hplace, rfl⟩] at hlabels
        cases hlabels
      simp [hnot]
  | ok l =>
      obtain ⟨hplace, rfl⟩ := collectLabels_eq_ok_iff.mp hlabels
      have hvars := length_newVariables_le (labelsOf (statements text)).symbols (statements text)
      have hmax : Word.maxUnsigned = 65535 := rfl
      have hextent := hplace.extent_le
      have hfit : firstVariable + (newVariables (labelsOf (statements text)).symbols
          (statements text)).length ≤ Word.maxUnsigned := by
        rw [firstVariable]
        omega
      simp only [encodeFrom_eq_ok (s := { table := (labelsOf (statements text)).symbols }) hfit,
        Except.ok.injEq, hplace, true_and]
      exact eq_comm

/-- With addresses enough, assembly can only fail at a label. -/
theorem assemble_eq_error {text : String} {e : AssemblyFault}
    (hloads : 2 * ((statements text).filterMap Statement.operand?).length ≤
      extent (statements text))
    (hfit : extent (statements text) ≤ Word.maxUnsigned) (h : assemble text = .error e) :
    ∃ name, e = .duplicateLabel name := by
  cases hlabels : collectLabels (statements text) with
  | ok l =>
      obtain ⟨hplace, -⟩ := collectLabels_eq_ok_iff.mp hlabels
      rw [(assemble_eq_ok_iff hloads).mpr ⟨hplace, rfl⟩] at h
      cases h
  | error e' =>
      simp only [assemble, bind, Except.bind, hlabels] at h
      cases h
      exact foldlM_note_eq_error hlabels (by simpa using hfit)

namespace Placeable

variable {ss : List Statement}

/-- A predefined symbol keeps its value. -/
theorem lookup_predefined (h : Placeable ss) {name : String} {value : Word}
    (hname : predefined.lookup name = some value) : (symbolsOf ss).lookup name = some value := by
  refine Symbols.lookup_after ?_
  have hnone : (labelEntries 0 ss).reverse.lookup name = none := by
    rw [lookup_eq_none_iff_notMem, List.map_reverse, map_fst_labelEntries, List.mem_reverse]
    intro hmem
    rw [h.notPredefined name hmem] at hname
    cases hname
  simp only [labelsOf, List.lookup_append, hnone, Option.none_or, hname]

/-- A label has the number of operations before it. -/
theorem lookup_label (h : Placeable ss) {before after : List Statement} {name : String}
    (hss : ss = before ++ .define name :: after) :
    (symbolsOf ss).lookup name = some (BitVec.ofNat 16 (extent before)) := by
  refine Symbols.lookup_after ?_
  have hnodup : ((labelEntries 0 ss).reverse.map Prod.fst).Nodup := by
    rw [List.map_reverse, map_fst_labelEntries, List.nodup_reverse]
    exact h.nodup
  have hmem : (name, BitVec.ofNat 16 (extent before)) ∈ (labelEntries 0 ss).reverse := by
    rw [List.mem_reverse, hss]
    have hentry := @mem_labelEntries 0 before after name
    rwa [Nat.zero_add] at hentry
  simp only [labelsOf, List.lookup_append, lookup_of_mem hnodup hmem, Option.some_or]

end Placeable

end HackVM.Hack

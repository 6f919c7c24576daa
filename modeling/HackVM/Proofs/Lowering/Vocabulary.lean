import HackVM.Proofs.Program.RunAssembly

/-!
# What the code of an instruction is made of

Apart from what every block shares (registers, cells, generated labels and small offsets), the code
of an instruction holds at most three things of its own: a symbol that it defines
(`definedSymbol?`), a symbol that it loads (`loadedSymbol?`) and a number that it loads
(`loadedNumber?`). Two statements say so:

* `writtenFor_of_mem_block`: no line of the code holds anything else;
* `ownLoads_block`: the symbol is loaded exactly once.

What a name can do to a line of assembly is then a question about these three
(`newline_notMem_of_writtenFor`).
-/

namespace HackVM.Lowering

open Text Hack

/-! ## What an instruction brings along -/

/-- The symbol of the source that the code of an instruction defines. -/
def definedSymbol? (s : Scope) : Instruction → Option Symbol
  | .label name => some (.scoped s.function name)
  | .function name _ => some (.function name)
  | _ => none

/-- The symbol of the source that the code of an instruction loads. -/
def loadedSymbol? (s : Scope) : Instruction → Option Symbol
  | .push .static n | .pop .static n => s.unit.map fun unit => .static unit n
  | .goto name | .ifGoto name => some (.scoped s.function name)
  | .call name _ => some (.function name)
  | _ => none

/-- The number of the source that the code of an instruction loads. The index of a static cell is no
number: it ends up in a symbol. -/
def loadedNumber? : Instruction → Option Word
  | .push .static _ | .pop .static _ => none
  | .push _ n | .pop _ n | .function _ n | .call _ n => some n
  | _ => none

/-- The symbol is part of every block's vocabulary. -/
def Symbol.isShared : Symbol → Bool
  | .cell _ | .generated .. => true
  | _ => false

/-- The line can stand in the code of an instruction. -/
def AsmLine.WrittenFor (s : Scope) (i : Instruction) : AsmLine → Prop
  | .comment _ => False
  | .define x => (∃ r n, x = .generated r n) ∨ definedSymbol? s i = some x
  | .load (.number n) => n.toNat ≤ frameWords.toNat ∨ loadedNumber? i = some n
  | .load (.symbol x) => x.isShared = true ∨ loadedSymbol? s i = some x
  | .assign .. | .branch .. => True

/-- All lines of a list can stand in the code of an instruction. -/
def AllWrittenFor (s : Scope) (i : Instruction) (ls : List AsmLine) : Prop :=
  ∀ l ∈ ls, l.WrittenFor s i

section shared

variable {s : Scope} {i : Instruction}

@[simp] theorem allWrittenFor_nil : AllWrittenFor s i [] :=
  fun _ h => absurd h List.not_mem_nil

@[simp] theorem allWrittenFor_cons {l : AsmLine} {ls : List AsmLine} :
    AllWrittenFor s i (l :: ls) ↔ l.WrittenFor s i ∧ AllWrittenFor s i ls :=
  List.forall_mem_cons

@[simp] theorem allWrittenFor_append {ls ms : List AsmLine} :
    AllWrittenFor s i (ls ++ ms) ↔ AllWrittenFor s i ls ∧ AllWrittenFor s i ms :=
  List.forall_mem_append

/-- Cells with a name of their own are loaded for every instruction. -/
@[simp] theorem writtenFor_loadCell (c : Cell) : (loadCell c).WrittenFor s i :=
  .inl rfl

/-- So are generated labels. -/
@[simp] theorem writtenFor_load_generated (r : LabelRole) (n : UInt32) :
    (AsmLine.load (.symbol (.generated r n))).WrittenFor s i :=
  .inl rfl

/-- A generated label may be defined for every instruction. -/
@[simp] theorem writtenFor_define_generated (r : LabelRole) (n : UInt32) :
    (AsmLine.define (.generated r n)).WrittenFor s i :=
  .inl ⟨r, n, rfl⟩

@[simp] theorem writtenFor_copyTo (target source : Register) :
    (copyTo target source).WrittenFor s i :=
  trivial

@[simp] theorem writtenFor_assign (target : Register) (v : Computation) :
    (AsmLine.assign target v).WrittenFor s i :=
  trivial

@[simp] theorem writtenFor_branch (v : Computation) (j : Jump) :
    (AsmLine.branch v j).WrittenFor s i :=
  trivial

/-- Numbers up to the size of a frame are loaded for every instruction. -/
theorem writtenFor_offset {n : Word} (h : n.toNat ≤ frameWords.toNat) :
    (loadNumber n).WrittenFor s i :=
  .inl h

@[simp] theorem allWrittenFor_pushD : AllWrittenFor s i pushD := by
  simp [pushD]

@[simp] theorem allWrittenFor_popD : AllWrittenFor s i popD := by
  simp [popD]

@[simp] theorem allWrittenFor_pushCell (c : Cell) : AllWrittenFor s i (pushCell c) := by
  simp [pushCell]

/-- The code that restores a cell loads its depth in the frame and nothing else of its own. -/
theorem allWrittenFor_restoreCell (c : Cell) {depth : Word} (h : depth.toNat ≤ frameWords.toNat) :
    AllWrittenFor s i (restoreCell c depth) := by
  simp [restoreCell, writtenFor_offset h]

/-- A jump loads its target and nothing else. -/
@[simp] theorem allWrittenFor_jumpTo {x : Symbol} :
    AllWrittenFor s i (jumpTo x) ↔ (AsmLine.load (.symbol x)).WrittenFor s i := by
  simp [jumpTo]

end shared

/-- The code of an address loads the index, or the static cell that it names. -/
theorem allWrittenFor_addressBlock {s : Scope} {i : Instruction} {seg : Segment} {n : Word}
    {block : List AsmLine} (hnumber : seg ≠ .static → loadedNumber? i = some n)
    (hsymbol : ∀ unit, s.unit = some unit → seg = .static →
      loadedSymbol? s i = some (.static unit n))
    (h : addressBlock s.unit seg n = .ok block) : AllWrittenFor s i block := by
  have hload : seg ≠ .static → (loadNumber n).WrittenFor s i := fun hseg => .inr (hnumber hseg)
  cases seg with
  | static =>
      cases hunit : s.unit with
      | none =>
          rw [hunit] at h
          cases h
      | some unit =>
          rw [hunit] at h
          cases h
          have hstatic : (AsmLine.load (.symbol (.static unit n))).WrittenFor s i :=
            .inr (hsymbol unit hunit rfl)
          simp [hstatic]
  | _ =>
      cases h
      simp [hload]

/-- **Every line of the code of an instruction is shared, or holds what the instruction brings
along.** -/
theorem writtenFor_of_mem_block {s : Scope} {i : Instruction} {block : List AsmLine}
    (h : s.block i = .ok block) : AllWrittenFor s i block := by
  cases i with
  | arithmetic op =>
      cases h
      cases op <;> simp [operatorBlock, shapeOf, compareBlock, twoOperands, oneOperand]
  | push seg n =>
      obtain ⟨address, haddress, rfl⟩ := pushBlock_eq_ok h
      have haddress' : AllWrittenFor s (.push seg n) address := by
        refine allWrittenFor_addressBlock ?_ ?_ haddress
        · intro hseg
          cases seg <;> first | rfl | exact absurd rfl hseg
        · rintro unit hunit rfl
          simp [loadedSymbol?, hunit]
      simp [haddress']
  | pop seg n =>
      obtain ⟨address, haddress, rfl⟩ := popBlock_eq_ok h
      have haddress' : AllWrittenFor s (.pop seg n) address := by
        refine allWrittenFor_addressBlock ?_ ?_ haddress
        · intro hseg
          cases seg <;> first | rfl | exact absurd rfl hseg
        · rintro unit hunit rfl
          simp [loadedSymbol?, hunit]
      simp [haddress']
  | label name =>
      cases h
      have hname : (AsmLine.define (.scoped s.function name)).WrittenFor s (.label name) := .inr rfl
      simp [hname]
  | goto name =>
      cases h
      have hname : (AsmLine.load (.symbol (.scoped s.function name))).WrittenFor s (.goto name) :=
        .inr rfl
      simp [hname]
  | ifGoto name =>
      cases h
      have hname : (AsmLine.load (.symbol (.scoped s.function name))).WrittenFor s (.ifGoto name) :=
        .inr rfl
      simp [ifGotoBlock, hname]
  | function name n =>
      cases h
      have hname : (AsmLine.define (.function name)).WrittenFor s (.function name n) := .inr rfl
      have hnumber : (loadNumber n).WrittenFor s (.function name n) := .inr rfl
      have hzero : (loadNumber 0#16).WrittenFor s (.function name n) := .inl (by decide)
      simp [functionBlock, hname, hnumber, hzero]
  | call name n =>
      cases h
      have hname : (AsmLine.load (.symbol (.function name))).WrittenFor s (.call name n) := .inr rfl
      have hnumber : (loadNumber n).WrittenFor s (.call name n) := .inr rfl
      have hframe : (loadNumber frameWords).WrittenFor s (.call name n) := .inl (by decide)
      simp [callBlock, hname, hnumber, hframe]
  | ret =>
      cases h
      have hframe : (loadNumber frameWords).WrittenFor s .ret := .inl (by decide)
      simp (disch := decide) [returnBlock, hframe, allWrittenFor_restoreCell]

/-! ## Loads -/

/-- The symbol of the source that a line loads. -/
def AsmLine.ownLoad? : AsmLine → Option Symbol
  | .load (.symbol x) => if x.isShared then none else some x
  | _ => none

/-- Among the addresses only one in the static segment is loaded by a name of the source. -/
theorem ownLoads_addressBlock {unit : Option String} {seg : Segment} {n : Word}
    {block : List AsmLine} (h : addressBlock unit seg n = .ok block) :
    block.filterMap AsmLine.ownLoad? =
      if seg = .static then (unit.map fun u => Symbol.static u n).toList else [] := by
  unfold addressBlock at h
  cases seg with
  | static =>
      cases unit with
      | none => cases h
      | some u =>
          cases h
          rfl
  | _ =>
      cases h
      rfl

/-- The code of an instruction loads the symbol that it brings along once, and no other symbol of
the source. -/
theorem ownLoads_block {s : Scope} {i : Instruction} {block : List AsmLine}
    (h : s.block i = .ok block) :
    block.filterMap AsmLine.ownLoad? = (loadedSymbol? s i).toList := by
  cases i with
  | arithmetic op =>
      cases h
      cases op <;> rfl
  | push seg n =>
      obtain ⟨address, haddress, rfl⟩ := pushBlock_eq_ok h
      rw [List.filterMap_append, List.filterMap_append, ownLoads_addressBlock haddress]
      unfold loadedSymbol?
      cases seg <;> cases s.unit <;> rfl
  | pop seg n =>
      obtain ⟨address, haddress, rfl⟩ := popBlock_eq_ok h
      rw [List.filterMap_append, List.filterMap_append, List.filterMap_append,
        ownLoads_addressBlock haddress]
      unfold loadedSymbol?
      cases seg <;> cases s.unit <;> rfl
  | _ =>
      cases h
      rfl

/-! ## Line feeds -/

/-- No name that the symbols of an instruction are built from holds a line feed. -/
structure OneLine (s : Scope) (i : Instruction) : Prop where
  unit : ∀ u ∈ s.unit, '\n' ∉ u.toList
  function : '\n' ∉ s.function.toList
  subject : '\n' ∉ i.subject.toList

/-- A label of the source stays on its line. -/
theorem OneLine.definedSymbol {s : Scope} {i : Instruction} (h : OneLine s i) {x : Symbol}
    (hx : definedSymbol? s i = some x) : '\n' ∉ x.text.toList := by
  cases i with
  | label name =>
      cases hx
      have hname : '\n' ∉ name.toList := h.subject
      simp [Symbol.toList_scoped, h.function, hname]
  | function name n =>
      cases hx
      exact h.subject
  | _ => cases hx

/-- So does a name of the source that is loaded. -/
theorem OneLine.loadedSymbol {s : Scope} {i : Instruction} (h : OneLine s i) {x : Symbol}
    (hx : loadedSymbol? s i = some x) : '\n' ∉ x.text.toList := by
  have hscoped : ∀ name : String, '\n' ∉ name.toList →
      '\n' ∉ (Symbol.scoped s.function name).text.toList := by
    intro name hname
    simp [Symbol.toList_scoped, h.function, hname]
  have hstatic : ∀ n : Word, (s.unit.map fun unit => Symbol.static unit n) = some x →
      '\n' ∉ x.text.toList := by
    intro n hx
    obtain ⟨u, hu, rfl⟩ := Option.map_eq_some_iff.mp hx
    exact legible_load_static (h.unit u hu) n
  cases i with
  | push seg n =>
      cases seg <;> first | exact hstatic n hx | cases hx
  | pop seg n =>
      cases seg <;> first | exact hstatic n hx | cases hx
  | goto name =>
      cases hx
      exact hscoped name h.subject
  | ifGoto name =>
      cases hx
      exact hscoped name h.subject
  | call name n =>
      cases hx
      exact h.subject
  | _ => cases hx

/-- **A line takes up one physical line** where the names of its instruction do. -/
theorem newline_notMem_of_writtenFor {s : Scope} {i : Instruction} (h : OneLine s i) {l : AsmLine}
    (hl : l.WrittenFor s i) : '\n' ∉ l.text.toList := by
  cases l with
  | comment text => cases hl
  | define x =>
      have hx : '\n' ∉ x.text.toList := by
        rcases hl with ⟨r, n, rfl⟩ | hx
        · exact newline_notMem_generated r n
        · exact h.definedSymbol hx
      simp [AsmLine.text, String.toList_append, hx]
  | load o =>
      cases o with
      | number n => exact AsmLine.newline_notMem_text (legible_loadNumber n)
      | symbol x =>
          have hx : '\n' ∉ x.text.toList := by
            rcases hl with hshared | hx
            · cases x with
              | cell c => exact legible_loadCell c
              | generated r n => exact newline_notMem_generated r n
              | _ => cases hshared
            · exact h.loadedSymbol hx
          simp [AsmLine.text, Operand.text, String.toList_append, hx]
  | assign target value => exact AsmLine.newline_notMem_text (legible_assign target value)
  | branch tested jump => exact AsmLine.newline_notMem_text (legible_branch tested jump)

end HackVM.Lowering

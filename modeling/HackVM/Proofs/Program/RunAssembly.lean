import HackVM.Proofs.Hack.Passes
import HackVM.Proofs.Lowering.SymbolText
import HackVM.Proofs.Program.RunCode

/-!
# What the assembler sees of a run

Every site contributes the statements of its code (`Site.statements`); annotations leave no trace.
Two facts hold of every run whose names stand on one line:

* the assembler reads the text of the run as these statements, in order
  (`NamesOnLine.statements_run`);
* at least every other statement is no load (`two_mul_loads_le`), so a program whose operations can
  be counted never runs out of cells for its variables, and whether it is assembled is a matter of
  its labels alone (`NamesOnLine.assemble_eq_ok_iff`, `NamesOnLine.assemble_eq_error`).
-/

namespace HackVM.Lowering

open Text Hack Source

/-! ## What holds at every site -/

/-- A property of scopes that instructions keep holds at each of their sites. -/
theorem forall_instructionSites {P : Scope → Prop} {Q : Instruction → Prop}
    (hafter : ∀ s i, P s → Q i → P (s.after i)) {s : Scope} {is : List Instruction} (hs : P s)
    (his : ∀ i ∈ is, Q i) :
    (∀ site ∈ instructionSites s is, P site.scope ∧
      ∃ i, site.command = .perform i ∧ Q i ∧ site.comment = some i.text) ∧
    P (is.foldl Scope.after s) := by
  induction is generalizing s with
  | nil => exact ⟨fun site hsite => absurd hsite List.not_mem_nil, hs⟩
  | cons i is ih =>
      have hi := his i List.mem_cons_self
      obtain ⟨hsites, hend⟩ := ih (hafter s i hs hi) fun j hj => his j (List.mem_cons_of_mem _ hj)
      refine ⟨fun site hsite => ?_, hend⟩
      rcases List.mem_cons.mp hsite with rfl | hsite
      · exact ⟨hs, i, rfl, hi, rfl⟩
      · exact hsites site hsite

/-- A property of scopes that holds at the start of every unit, and that instructions keep, holds at
each site of the units. -/
theorem forall_unitSites {P Pre : Scope → Prop} {Q : Instruction → Prop} {units : List UnitCode}
    (hunit : ∀ s, ∀ u ∈ units, Pre s → P (s.inUnit u.name))
    (hafter : ∀ s i, P s → Q i → P (s.after i)) (hpre : ∀ s, P s → Pre s)
    (hcode : ∀ u ∈ units, ∀ i ∈ u.code, Q i) {s : Scope} (hs : Pre s) :
    ∀ site ∈ unitSites s units, P site.scope ∧
      ∃ i, site.command = .perform i ∧ Q i ∧ site.comment = some i.text := by
  induction units generalizing s with
  | nil => exact fun site hsite => absurd hsite List.not_mem_nil
  | cons u units ih =>
      obtain ⟨hsites, hend⟩ := forall_instructionSites hafter (hunit s u List.mem_cons_self hs)
        (hcode u List.mem_cons_self)
      intro site hsite
      rcases List.mem_append.mp hsite with hsite | hsite
      · exact hsites site hsite
      · exact ih (fun s v hv => hunit s v (List.mem_cons_of_mem _ hv))
          (fun v hv => hcode v (List.mem_cons_of_mem _ hv)) (hpre _ hend) site hsite

/-! ## Legibility -/

/-- Every name of the instruction stands on one line, and the name it defines holds no comment. -/
def OnLine : Instruction → Prop
  | .label name | .function name _ => '\n' ∉ name.toList ∧ NoComment name.toList
  | .goto name | .ifGoto name | .call name _ => '\n' ∉ name.toList
  | _ => True

/-- The names of a readable instruction stand on one line. -/
theorem onLine_of_readable {i : Instruction} (h : Readable i) : OnLine i := by
  cases i with
  | label name => exact ⟨h.newline_notMem, h.noComment⟩
  | function name n => exact ⟨h.1.newline_notMem, h.1.noComment⟩
  | goto name => exact h.newline_notMem
  | ifGoto name => exact h.newline_notMem
  | call name n => exact h.1.newline_notMem
  | _ => trivial

/-- The names of the scope stand on one line, and the function's holds no comment. -/
structure Scope.OnLine (s : Scope) : Prop where
  unit : ∀ u ∈ s.unit, '\n' ∉ u.toList
  function : '\n' ∉ s.function.toList
  noComment : NoComment s.function.toList

/-- An instruction on its line keeps the scope's names on theirs. -/
theorem Scope.OnLine.after {s : Scope} {i : Instruction} (hs : s.OnLine) (hi : Lowering.OnLine i) :
    (s.after i).OnLine := by
  refine ⟨?_, ?_, ?_⟩
  · rw [Scope.after_unit]
    exact hs.unit
  all_goals unfold Scope.after Scope.number
  · cases i with
    | function name n => exact hi.1
    | _ => split <;> exact hs.function
  · cases i with
    | function name n => exact hi.2
    | _ => split <;> exact hs.noComment

theorem Scope.OnLine.start : Scope.OnLine {} :=
  ⟨by simp, by simp, noComment_nil⟩

/-- What a run has to promise about its names to be read back line by line. -/
structure NamesOnLine (options : Options) (units : List UnitCode) : Prop where
  readable : ∀ u ∈ units, ∀ i ∈ u.code, Readable i
  unit : ∀ u ∈ units, '\n' ∉ u.name.toList
  entry : options.bootstrap = true → '\n' ∉ options.entry.toList

/-! Each line that a block is made of, by the symbols it names. -/

@[simp] theorem legible_loadCell (c : Cell) : (loadCell c).Legible := by
  rw [loadCell, AsmLine.Legible, Operand.text, Symbol.text]
  cases c <;> decide

@[simp] theorem legible_loadNumber (n : Word) : (loadNumber n).Legible := by
  simpa [loadNumber, AsmLine.Legible, Operand.text]
    using Decimal.notMem_digits (c := '\n') (by decide) _

@[simp] theorem legible_copyTo (target source : Register) : (copyTo target source).Legible :=
  trivial

@[simp] theorem legible_assign (target : Register) (v : Computation) :
    (AsmLine.assign target v).Legible :=
  trivial

@[simp] theorem legible_branch (v : Computation) (j : Jump) : (AsmLine.branch v j).Legible :=
  trivial

/-- Generated labels stand on one line. -/
theorem newline_notMem_generated (r : LabelRole) (n : UInt32) :
    '\n' ∉ (Symbol.generated r n).text.toList := by
  rw [Symbol.toList_generated, List.mem_append, not_or]
  exact ⟨r.stem_spec.2.2.2.1, Decimal.notMem_digits (by decide) _⟩

@[simp] theorem legible_load_generated (r : LabelRole) (n : UInt32) :
    (AsmLine.load (.symbol (.generated r n))).Legible :=
  newline_notMem_generated r n

@[simp] theorem legible_define_generated (r : LabelRole) (n : UInt32) :
    (AsmLine.define (.generated r n)).Legible :=
  ⟨newline_notMem_generated r n, Symbol.noComment_generated r n⟩

/-- A label of the source that stands on one line can be loaded. -/
theorem legible_load_scoped {f l : String} (hf : '\n' ∉ f.toList) (hl : '\n' ∉ l.toList) :
    (AsmLine.load (.symbol (.scoped f l))).Legible := by
  simp [AsmLine.Legible, Operand.text, Symbol.toList_scoped, hf, hl]

/-- It can be defined if it holds no comment either. -/
theorem legible_define_scoped {f l : String} (hf : '\n' ∉ f.toList) (hf' : NoComment f.toList)
    (hl : '\n' ∉ l.toList) (hl' : NoComment l.toList) : (AsmLine.define (.scoped f l)).Legible := by
  refine ⟨by simp [Symbol.toList_scoped, hf, hl], ?_⟩
  rw [Symbol.toList_scoped, noComment_append_cons (by decide)]
  exact ⟨hf', hl'⟩

/-- A static cell of a unit with a name on one line can be loaded. -/
theorem legible_load_static {u : String} (hu : '\n' ∉ u.toList) (i : Word) :
    (AsmLine.load (.symbol (.static u i))).Legible := by
  have hdigits : '\n' ∉ Decimal.digits i.toNat := Decimal.notMem_digits (by decide) _
  simp [AsmLine.Legible, Operand.text, Symbol.toList_static, hu, hdigits]

/-- The lines of a list are legible. -/
def AllLegible (ls : List AsmLine) : Prop :=
  ∀ l ∈ ls, l.Legible

@[simp] theorem allLegible_nil : AllLegible [] :=
  fun _ h => absurd h List.not_mem_nil

@[simp] theorem allLegible_cons {l : AsmLine} {ls : List AsmLine} :
    AllLegible (l :: ls) ↔ l.Legible ∧ AllLegible ls :=
  List.forall_mem_cons

@[simp] theorem allLegible_append {ls ms : List AsmLine} :
    AllLegible (ls ++ ms) ↔ AllLegible ls ∧ AllLegible ms :=
  List.forall_mem_append

@[simp] theorem allLegible_pushD : AllLegible pushD := by
  simp [pushD]

@[simp] theorem allLegible_popD : AllLegible popD := by
  simp [popD]

@[simp] theorem allLegible_pushCell (c : Cell) : AllLegible (pushCell c) := by
  simp [pushCell]

@[simp] theorem allLegible_restoreCell (c : Cell) (depth : Word) :
    AllLegible (restoreCell c depth) := by
  simp [restoreCell]

/-- A jump is as legible as its target. -/
@[simp] theorem allLegible_jumpTo {s : Symbol} :
    AllLegible (jumpTo s) ↔ (AsmLine.load (.symbol s)).Legible := by
  simp [jumpTo]

/-- The code of a push: its address, the value, and the push itself. -/
theorem pushBlock_eq_ok {unit : Option String} {seg : Segment} {n : Word} {block : List AsmLine}
    (h : pushBlock unit seg n = .ok block) :
    ∃ address, addressBlock unit seg n = .ok address ∧
      block = address ++ [copyTo .d (if seg = .constant then .a else .m)] ++ pushD := by
  rw [pushBlock] at h
  cases haddress : addressBlock unit seg n with
  | error e =>
      rw [haddress] at h
      cases h
  | ok address =>
      rw [haddress] at h
      cases h
      exact ⟨address, rfl, rfl⟩

/-- The code of a pop: its address goes to `R13`, and then the value where that points. -/
theorem popBlock_eq_ok {unit : Option String} {seg : Segment} {n : Word} {block : List AsmLine}
    (h : popBlock unit seg n = .ok block) :
    ∃ address, addressBlock unit seg n = .ok address ∧
      block = address ++ [copyTo .d .a, loadCell .r13, copyTo .m .d] ++ popD ++
        [loadCell .r13, copyTo .a .m, copyTo .m .d] := by
  rw [popBlock] at h
  split_ifs at h
  cases haddress : addressBlock unit seg n with
  | error e =>
      rw [haddress] at h
      cases h
  | ok address =>
      rw [haddress] at h
      cases h
      exact ⟨address, rfl, rfl⟩

/-- The code of an address is a number, a number added to what a cell holds or is, or a static
cell. -/
theorem addressBlock_cases {unit : Option String} {seg : Segment} {n : Word} {block : List AsmLine}
    (h : addressBlock unit seg n = .ok block) :
    block = [loadNumber n] ∨
      (∃ base r, block = [loadCell base, copyTo .d r, loadNumber n, .assign .a (.add .a)]) ∨
      ∃ u, unit = some u ∧ block = [.load (.symbol (.static u n))] := by
  unfold addressBlock at h
  split at h
  · cases h
    exact .inl rfl
  · cases h
    exact .inr (.inl ⟨_, _, rfl⟩)
  · cases h
    exact .inr (.inl ⟨_, _, rfl⟩)
  · split at h
    · cases h
      exact .inr (.inr ⟨_, rfl, rfl⟩)
    · cases h

/-- The code of an address is legible. -/
theorem allLegible_addressBlock {unit : Option String} {seg : Segment} {n : Word}
    {block : List AsmLine} (hunit : ∀ u ∈ unit, '\n' ∉ u.toList)
    (h : addressBlock unit seg n = .ok block) :
    AllLegible block := by
  rcases addressBlock_cases h with rfl | ⟨base, r, rfl⟩ | ⟨u, rfl, rfl⟩
  · simp
  · simp
  · simp [legible_load_static (hunit u rfl)]

/-- The code of an instruction is legible where the names are. -/
theorem allLegible_block {s : Scope} {i : Instruction} {block : List AsmLine} (hs : s.OnLine)
    (hi : OnLine i) (h : s.block i = .ok block) : AllLegible block := by
  cases i with
  | arithmetic op =>
      cases h
      cases op <;> simp [operatorBlock, shapeOf, compareBlock, twoOperands, oneOperand]
  | push seg n =>
      obtain ⟨address, haddress, rfl⟩ := pushBlock_eq_ok h
      simp [allLegible_addressBlock hs.unit haddress]
  | pop seg n =>
      obtain ⟨address, haddress, rfl⟩ := popBlock_eq_ok h
      simp [allLegible_addressBlock hs.unit haddress]
  | label name =>
      cases h
      simp [legible_define_scoped hs.function hs.noComment hi.1 hi.2]
  | goto name =>
      cases h
      simp [legible_load_scoped hs.function hi]
  | ifGoto name =>
      cases h
      simp [ifGotoBlock, legible_load_scoped hs.function hi]
  | function name n =>
      cases h
      have hname : (AsmLine.define (.function name)).Legible := hi
      simp [functionBlock, hname]
  | call name n =>
      cases h
      have hname : (AsmLine.load (.symbol (.function name))).Legible := hi
      simp [callBlock, hname]
  | ret =>
      cases h
      simp [returnBlock]

/-- Keywords stand on one line. -/
theorem newline_notMem_keyword (k : Keyword) : '\n' ∉ k.text.toList := by
  cases k with
  | operator op => cases op <;> decide
  | _ => decide

/-- So does what an instruction is about. -/
theorem newline_notMem_subject {i : Instruction} (hi : OnLine i) : '\n' ∉ i.subject.toList := by
  have hoperator : ∀ op : Operator, '\n' ∉ op.name.toList := by
    intro op
    cases op <;> decide
  have hsegment : ∀ seg : Segment, '\n' ∉ seg.name.toList := by
    intro seg
    cases seg <;> decide
  cases i with
  | arithmetic op => exact hoperator op
  | push seg n => exact hsegment seg
  | pop seg n => exact hsegment seg
  | ret => decide
  | label name => exact hi.1
  | function name n => exact hi.1
  | goto name => exact hi
  | ifGoto name => exact hi
  | call name n => exact hi

/-- The comment of an instruction stands on one line where its subject does. -/
theorem newline_notMem_text_of_subject {i : Instruction} (hsubject : '\n' ∉ i.subject.toList) :
    '\n' ∉ i.text.toList := by
  have hnumber : '\n' ∉ Decimal.digits i.number.toNat := Decimal.notMem_digits (by decide) _
  have hkeyword := newline_notMem_keyword i.keyword
  cases i <;> simp_all [Instruction.text, Instruction.subject, String.toList_append]

/-- So does the text of an instruction. -/
theorem newline_notMem_text {i : Instruction} (hi : OnLine i) : '\n' ∉ i.text.toList :=
  newline_notMem_text_of_subject (newline_notMem_subject hi)

namespace Site

/-- What a site needs to be legible. -/
structure OnLine (site : Site) : Prop where
  scope : site.scope.OnLine
  command : ∀ i, site.command = .perform i → Lowering.OnLine i
  comment : ∀ text ∈ site.comment, '\n' ∉ text.toList

/-- The code of an instruction on its line is legible. -/
theorem OnLine.allLegible_code {site : Site} (h : site.OnLine) : AllLegible site.code := by
  unfold code
  split
  · simp [stackBlock]
  · next i hi =>
      cases hblock : site.scope.block i with
      | error e => exact allLegible_nil
      | ok block => exact allLegible_block h.scope (h.command i hi) hblock

/-- So it is with its comment. -/
theorem OnLine.allLegible_lines {site : Site} (h : site.OnLine) (annotate : Bool) :
    AllLegible (site.lines annotate) := by
  rw [lines, allLegible_append]
  refine ⟨?_, h.allLegible_code⟩
  intro l hl
  split_ifs at hl
  · obtain ⟨text, htext, rfl⟩ := List.mem_map.mp hl
    exact h.comment text (Option.mem_toList.mp htext)
  · cases hl

end Site

/-- The bootstrap leaves a scope with its names on one line. -/
theorem NamesOnLine.bootstrapScope {options : Options} {units : List UnitCode}
    (h : NamesOnLine options units) : (bootstrapScope options).OnLine := by
  unfold Lowering.bootstrapScope
  split_ifs with hboot
  · exact Scope.OnLine.start.after (h.entry hboot)
  · exact Scope.OnLine.start

/-- Every site of a run is legible. -/
theorem NamesOnLine.site {options : Options} {units : List UnitCode} (h : NamesOnLine options units)
    {site : Site} (hsite : site ∈ runSites options units) : site.OnLine := by
  rcases List.mem_append.mp hsite with hsite | hsite
  · unfold bootstrapSites at hsite
    split_ifs at hsite with hboot
    · simp only [List.mem_cons, List.not_mem_nil, or_false] at hsite
      rcases hsite with rfl | rfl
      · refine ⟨Scope.OnLine.start, ?_, ?_⟩
        · rintro i ⟨⟩
        · rintro text ⟨⟩
          decide
      · refine ⟨Scope.OnLine.start, ?_, ?_⟩
        · rintro i ⟨⟩
          exact h.entry hboot
        · rintro text ⟨⟩
    · cases hsite
  · have hunit : ∀ s : Scope, ∀ u ∈ units, s.OnLine → (s.inUnit u.name).OnLine := by
      intro s u hu hs
      refine ⟨?_, hs.function, hs.noComment⟩
      rintro name ⟨⟩
      exact h.unit u hu
    obtain ⟨hscope, i, hcommand, hi, hcomment⟩ := forall_unitSites hunit
      (fun s i hs hi => hs.after hi) (fun s hs => hs)
      (fun u hu i hi => onLine_of_readable (h.readable u hu i hi)) h.bootstrapScope site hsite
    refine ⟨hscope, ?_, ?_⟩
    · intro j hj
      rw [hcommand] at hj
      cases hj
      exact hi
    · intro text htext
      rw [hcomment] at htext
      cases htext
      exact newline_notMem_text hi

/-- Every line of a run with names on one line is legible. -/
theorem NamesOnLine.allLegible_runLines {options : Options} {units : List UnitCode}
    (h : NamesOnLine options units) : AllLegible (runLines options units) := by
  intro l hl
  obtain ⟨site, hsite, hl⟩ := List.mem_flatMap.mp hl
  exact (h.site hsite).allLegible_lines options.annotate l hl

/-! ## Statements -/

/-- The statements of the code at a site. -/
def Site.statements (s : Site) : List Statement :=
  s.code.filterMap AsmLine.statement?

/-- The statements of a run. -/
def runStatements (options : Options) (units : List UnitCode) : List Statement :=
  (runSites options units).flatMap Site.statements

/-- Annotations are no statements. -/
theorem Site.filterMap_statement?_lines (annotate : Bool) (s : Site) :
    (s.lines annotate).filterMap AsmLine.statement? = s.statements := by
  rw [lines, List.filterMap_append, statements]
  cases annotate <;> cases s.comment <;> rfl

/-- The assembler reads the text of a run as its statements. -/
theorem NamesOnLine.statements_run {options : Options} {units : List UnitCode}
    (h : NamesOnLine options units) :
    Hack.statements (render (runLines options units)) = runStatements options units := by
  rw [statements_render h.allLegible_runLines, runLines, runStatements, List.filterMap_flatMap]
  exact congrArg (List.flatMap · _) (funext (Site.filterMap_statement?_lines _))

/-! ## Operations and loads -/

/-- The number of operations that lines are assembled to. -/
def size : List AsmLine → Nat
  | [] => 0
  | .comment _ :: ls | .define _ :: ls => size ls
  | .load _ :: ls | .assign _ _ :: ls | .branch _ _ :: ls => size ls + 1

/-- The number of loads among them. -/
def loads : List AsmLine → Nat
  | [] => 0
  | .load _ :: ls => loads ls + 1
  | _ :: ls => loads ls

/-- The sizes of code add up. -/
theorem size_append (ls ms : List AsmLine) : size (ls ++ ms) = size ls + size ms := by
  induction ls with
  | nil => simp [size]
  | cons l ls ih =>
      cases l <;> simp only [List.cons_append, size, ih]
      all_goals omega

/-- So do the numbers of loads. -/
theorem loads_append (ls ms : List AsmLine) : loads (ls ++ ms) = loads ls + loads ms := by
  induction ls with
  | nil => simp [loads]
  | cons l ls ih =>
      cases l <;> simp only [List.cons_append, loads, ih]
      omega

/-- The assembler counts as many operations as the code has. -/
theorem extent_statements (ls : List AsmLine) :
    extent (ls.filterMap AsmLine.statement?) = size ls := by
  induction ls with
  | nil => rfl
  | cons l ls ih =>
      rw [extent] at ih ⊢
      cases l <;>
        simp [AsmLine.statement?, List.filterMap_cons, size, Statement.definition?, ← ih]

/-- The assembler sees as many loads as the code has. -/
theorem length_operands (ls : List AsmLine) :
    ((ls.filterMap AsmLine.statement?).filterMap Statement.operand?).length = loads ls := by
  induction ls with
  | nil => rfl
  | cons l ls ih =>
      cases l <;>
        simp [AsmLine.statement?, List.filterMap_cons, loads, Statement.operand?, ← ih]

/-- In the code of an address there is at most one load more than there are other operations. -/
theorem loads_addressBlock {unit : Option String} {seg : Segment} {n : Word} {block : List AsmLine}
    (h : addressBlock unit seg n = .ok block) : 2 * loads block ≤ size block + 1 := by
  rcases addressBlock_cases h with rfl | ⟨base, r, rfl⟩ | ⟨u, -, rfl⟩ <;>
    exact Nat.le_of_ble_eq_true rfl

/-- A block has no more loads than other operations. -/
theorem loads_block {s : Scope} {i : Instruction} {block : List AsmLine}
    (h : s.block i = .ok block) : 2 * loads block ≤ size block := by
  cases i with
  | arithmetic op =>
      cases h
      cases op <;> exact Nat.le_of_ble_eq_true rfl
  | push seg n =>
      obtain ⟨address, haddress, rfl⟩ := pushBlock_eq_ok h
      have hloads := loads_addressBlock haddress
      simp only [loads_append, size_append, loads, size, copyTo, pushD, loadCell]
      omega
  | pop seg n =>
      obtain ⟨address, haddress, rfl⟩ := popBlock_eq_ok h
      have hloads := loads_addressBlock haddress
      simp only [loads_append, size_append, loads, size, copyTo, popD, loadCell]
      omega
  | _ =>
      cases h
      exact Nat.le_of_ble_eq_true rfl

/-- At most every second operation of a site is a load. -/
theorem Site.loads_code (s : Site) : 2 * loads s.code ≤ size s.code := by
  unfold code
  split
  · exact Nat.le_of_ble_eq_true rfl
  · next i _ =>
      cases hblock : s.scope.block i with
      | error e => exact Nat.le_refl _
      | ok block => exact loads_block hblock

/-- The number of operations of a run. -/
def runSize (options : Options) (units : List UnitCode) : Nat :=
  ((runSites options units).map fun s => size s.code).sum

/-- A run has as many operations as its size says. -/
theorem extent_runStatements (options : Options) (units : List UnitCode) :
    extent (runStatements options units) = runSize options units := by
  rw [runStatements, runSize]
  induction runSites options units with
  | nil => rfl
  | cons s sites ih =>
      rw [List.flatMap_cons, extent_append, ih, Site.statements, extent_statements, List.map_cons,
        List.sum_cons]

/-- At least every other operation of a run is no load. -/
theorem two_mul_loads_le (options : Options) (units : List UnitCode) :
    2 * ((runStatements options units).filterMap Statement.operand?).length ≤
      extent (runStatements options units) := by
  rw [runStatements]
  induction runSites options units with
  | nil => exact Nat.le_refl _
  | cons s sites ih =>
      have hs := s.loads_code
      rw [List.flatMap_cons, extent_append, List.filterMap_append, List.length_append,
        Site.statements, extent_statements, length_operands]
      omega

/-! ## Assembly -/

section assembly

variable {options : Options} {units : List UnitCode} (h : NamesOnLine options units)
include h

/-- **A run is assembled exactly if its statements can be placed.** -/
theorem NamesOnLine.assemble_eq_ok_iff {p : Program} :
    assemble (render (runLines options units)) = .ok p ↔
      Placeable (runStatements options units) ∧ p = programOf (runStatements options units) := by
  have hloads := two_mul_loads_le options units
  rw [← h.statements_run] at hloads ⊢
  exact Hack.assemble_eq_ok_iff hloads

/-- If the operations of a run can be counted, only a label can keep it from being assembled. -/
theorem NamesOnLine.assemble_eq_error {e : AssemblyFault}
    (hfit : runSize options units ≤ Word.maxUnsigned)
    (he : assemble (render (runLines options units)) = .error e) :
    ∃ name, e = .duplicateLabel name := by
  have hloads := two_mul_loads_le options units
  rw [← extent_runStatements, ← h.statements_run] at hfit
  rw [← h.statements_run] at hloads
  exact Hack.assemble_eq_error hloads hfit he

end assembly

end HackVM.Lowering

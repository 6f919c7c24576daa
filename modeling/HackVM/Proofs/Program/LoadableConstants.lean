import HackVM.Proofs.Lowering.Vocabulary
import HackVM.Proofs.Program.Annotation
import HackVM.Proofs.Program.LabelClash

/-!
# Numbers that the machine can load

An address instruction has 15 bits for its number. The numbers of instructions, and those that their
code brings along, fit them; the base of the stack is an option and is left aside here. A name is no
number, but two kinds of names are written behind an `@` as they stand, and a name can spell
anything: the function of a call, and the name of a unit in front of a static cell.

* `overloads_line`: a line of code loads a number that is too large only where it loads a symbol of
  the source;
* `overloads_code`: so does an instruction, once for the symbol that it brings along; a branch does
  not, since its symbol holds a full stop;
* `overloads_unitSites` collects these for units.

Main statement (`constants_loadable`): behind the base of the stack, the numbers of a program that
are too large are exactly those that the names spell.
-/

namespace HackVM.Lowering

open Text Hack Source

/-! ## Operands -/

/-- The operands of the address instructions in a text, in order. -/
def operandsIn (text : String) : List String :=
  (statements text).filterMap Statement.operand?

/-- Whether an operand is a number that no address instruction can load. -/
def isUnloadable (operand : String) : Bool :=
  (Decimal.readUnsigned? operand.toList).any fun n => Word.maxLoadable < n

/-- The operands of a text that are too large. -/
def overloads (text : String) : List String :=
  (operandsIn text).filter isUnloadable

/-- An operand with a character that is neither a digit nor `+` is no number. -/
theorem isUnloadable_of_mem {operand : String} (c : Char) (hc : c ∈ operand.toList)
    (hdigit : c.isDigit = false) (hplus : c ≠ '+') : isUnloadable operand = false := by
  rw [isUnloadable, Decimal.readUnsigned?_eq_none c hc hdigit hplus]
  rfl

/-- A number that is written out is too large exactly if it is above the largest one. -/
theorem isUnloadable_text (n : Nat) :
    isUnloadable (Decimal.text n) = decide (Word.maxLoadable < n) := by
  rw [isUnloadable, Decimal.toList_text, Decimal.readUnsigned?_digits, Option.any_some]

/-- The operands of a text are those of its parts. -/
theorem operandsIn_render_append (xs ys : List AsmLine) :
    operandsIn (render (xs ++ ys)) = operandsIn (render xs) ++ operandsIn (render ys) := by
  rw [operandsIn, statements_render_append, List.filterMap_append]
  rfl

/-- A legible line has the operand that was meant, as the assembler reads it. -/
theorem operandsIn_render_legible {l : AsmLine} (h : l.Legible) :
    operandsIn (render [l]) = (l.statement?.bind Statement.operand?).toList := by
  rw [operandsIn, statements_render (by simpa using h)]
  cases hl : l.statement? with
  | none => simp [hl]
  | some st => cases hst : st.operand? <;> simp [hl, hst]

/-- The text of a symbol behind an `@`. -/
def loadText (name : String) : String :=
  "@" ++ name ++ "\n"

/-- A line that loads a symbol, as text. -/
theorem render_load (x : Symbol) : render [.load (.symbol x)] = loadText x.text := by
  simp [render, AsmLine.text, Operand.text, loadText]

/-! ## Lines -/

section line

variable {s : Scope} {i : Instruction}

/-- A symbol is harmless if the assembler reads no number that is too large in it. -/
theorem overloads_eq_nil {x : Symbol} (hline : '\n' ∉ x.text.toList)
    (hname : isUnloadable (asRead x.text) = false) : overloads (loadText x.text) = [] := by
  have hlegible : (AsmLine.load (.symbol x)).Legible := hline
  rw [← render_load, overloads, operandsIn_render_legible hlegible]
  simp [AsmLine.statement?, Statement.operand?, Operand.text, hname]

/-- A shared symbol is no number. -/
theorem overloads_shared {x : Symbol} (h : x.isShared = true) :
    overloads (loadText x.text) = [] := by
  cases x with
  | cell c =>
      refine overloads_eq_nil (legible_loadCell c) ?_
      rw [(Symbol.faithful_cell c).asRead_eq]
      cases c <;> rfl
  | generated r n =>
      refine overloads_eq_nil (newline_notMem_generated r n) ?_
      rw [(Symbol.faithful_generated r n).asRead_eq]
      exact isUnloadable_of_mem '_' (Symbol.underscore_mem_generated r n) (by decide) (by decide)
  | _ => cases h

/-- A line of the code of an instruction is too large only in a symbol of the source. -/
theorem overloads_line (hdefine : ∀ x, definedSymbol? s i = some x → (AsmLine.define x).Legible)
    (hnumber : ∀ n, loadedNumber? i = some n → n.toNat ≤ Word.maxLoadable) {l : AsmLine}
    (hl : l.WrittenFor s i) :
    overloads (render [l]) = l.ownLoad?.toList.flatMap fun x => overloads (loadText x.text) := by
  cases l with
  | comment text => cases hl
  | define x =>
      have hlegible : (AsmLine.define x).Legible := by
        rcases hl with ⟨r, n, rfl⟩ | hx
        · exact legible_define_generated r n
        · exact hdefine x hx
      rw [overloads, operandsIn_render_legible hlegible]
      rfl
  | load o =>
      cases o with
      | number n =>
          have hle : n.toNat ≤ Word.maxLoadable := by
            rcases hl with hn | hn
            · exact hn.trans (by decide)
            · exact hnumber n hn
          rw [overloads, operandsIn_render_legible (l := .load (.number n)) (legible_loadNumber n)]
          simp [AsmLine.statement?, Statement.operand?, Operand.text, asRead_number,
            isUnloadable_text, hle, AsmLine.ownLoad?]
      | symbol x =>
          rw [render_load, AsmLine.ownLoad?]
          cases hx : x.isShared with
          | false => simp
          | true => simp [overloads_shared hx]
  | assign target value =>
      rw [overloads, operandsIn_render_legible (legible_assign target value)]
      rfl
  | branch tested jump =>
      rw [overloads, operandsIn_render_legible (legible_branch tested jump)]
      rfl

/-- Of the lines of an instruction only those that load a name of the source can be too large. -/
theorem overloads_lines (hdefine : ∀ x, definedSymbol? s i = some x → (AsmLine.define x).Legible)
    (hnumber : ∀ n, loadedNumber? i = some n → n.toNat ≤ Word.maxLoadable) {ls : List AsmLine}
    (hls : AllWrittenFor s i ls) :
    overloads (render ls) = (ls.filterMap AsmLine.ownLoad?).flatMap fun x =>
      overloads (loadText x.text) := by
  induction ls with
  | nil => rfl
  | cons l ls ih =>
      rw [allWrittenFor_cons] at hls
      have hsplit : overloads (render (l :: ls)) =
          overloads (render [l]) ++ overloads (render ls) := by
        rw [overloads, ← List.singleton_append, operandsIn_render_append, List.filter_append]
        rfl
      rw [hsplit, overloads_line hdefine hnumber hls.1, ih hls.2]
      cases hload : l.ownLoad? with
      | none => simp [hload]
      | some x => simp [hload]

end line

/-! ## Instructions -/

/-- The name that the code of an instruction loads as it stands. -/
def verbatimName? (unit : String) : Instruction → Option String
  | .call name _ => some name
  | .push .static n | .pop .static n => some (Symbol.static unit n).text
  | _ => none

/-- The function of the scope can be part of a label. -/
structure Scope.InFunction (s : Scope) : Prop where
  newline_notMem : '\n' ∉ s.function.toList
  noComment : NoComment s.function.toList

theorem Scope.InFunction.start : Scope.InFunction {} :=
  ⟨by simp, noComment_nil⟩

/-- The function behind a readable instruction can be part of a label. -/
theorem Scope.InFunction.after {s : Scope} {i : Instruction} (hs : s.InFunction) (hi : Readable i) :
    (s.after i).InFunction := by
  refine ⟨?_, ?_⟩
  all_goals rw [Scope.function_after]
  · cases i with
    | function name n => exact hi.1.newline_notMem
    | _ => exact hs.newline_notMem
  · cases i with
    | function name n => exact hi.1.noComment
    | _ => exact hs.noComment

/-- Numbers that can be read can be loaded. -/
theorem loadedNumber_le {i : Instruction} (hi : Readable i) {n : Word}
    (hn : loadedNumber? i = some n) : n.toNat ≤ Word.maxLoadable := by
  have hindex : ∀ seg : Segment, seg ≠ .static → seg.maxIndex ≤ Word.maxLoadable := by
    intro seg hseg
    cases seg <;> first | decide | exact absurd rfl hseg
  cases i with
  | push seg k =>
      cases seg with
      | static => cases hn
      | _ =>
          cases hn
          exact hi.trans (hindex _ (by decide))
  | pop seg k =>
      cases seg with
      | static => cases hn
      | _ =>
          cases hn
          exact hi.2.trans (hindex _ (by decide))
  | function name k =>
      cases hn
      exact hi.2
  | call name k =>
      cases hn
      exact hi.2
  | _ => cases hn

/-- A label of the source is no number, since a full stop stands in it. -/
theorem overloads_scoped {f l : String} (hf : '\n' ∉ f.toList) (hf' : NoComment f.toList)
    (hl : PlainName l) : overloads (loadText (Symbol.scoped f l).text) = [] := by
  have hread : '.' ∈ (asRead (Symbol.scoped f l).text).toList := by
    have hcomment : NoComment (Symbol.scoped f l).text.toList := by
      rw [Symbol.toList_scoped, noComment_append_cons (by decide)]
      exact ⟨hf', hl.noComment⟩
    rw [asRead, String.toList_ofList, beforeComment_of_noComment hcomment]
    exact mem_trimEnd (Symbol.stop_mem_scoped f l) (by decide)
  refine overloads_eq_nil ?_ (isUnloadable_of_mem '.' hread (by decide) (by decide))
  exact legible_load_scoped hf hl.newline_notMem

/-- **The code of an instruction loads a number that is too large only where its name spells
one.** -/
theorem overloads_code {s : Scope} {unit : String} {i : Instruction} {comment : Option String}
    (hunit : s.unit = some unit) (hs : s.InFunction) (hi : Readable i) :
    overloads (render (Site.code ⟨s, .perform i, comment⟩)) =
      (verbatimName? unit i).toList.flatMap fun name => overloads (loadText name) := by
  obtain ⟨block, hblock⟩ := Scope.block_of_readable hunit hi
  have hdefine : ∀ x, definedSymbol? s i = some x → (AsmLine.define x).Legible := by
    intro x hx
    cases i with
    | label name =>
        cases hx
        exact legible_define_scoped hs.newline_notMem hs.noComment hi.newline_notMem hi.noComment
    | function name n =>
        cases hx
        exact ⟨hi.1.newline_notMem, hi.1.noComment⟩
    | _ => cases hx
  rw [Site.code_of_block hblock, overloads_lines hdefine (fun n hn => loadedNumber_le hi hn)
    (writtenFor_of_mem_block hblock), ownLoads_block hblock]
  cases i with
  | push seg n =>
      unfold loadedSymbol? verbatimName?
      rw [hunit]
      cases seg <;> rfl
  | pop seg n =>
      unfold loadedSymbol? verbatimName?
      rw [hunit]
      cases seg <;> rfl
  | goto name =>
    simp [loadedSymbol?, verbatimName?, overloads_scoped hs.newline_notMem hs.noComment hi]
  | ifGoto name =>
    simp [loadedSymbol?, verbatimName?, overloads_scoped hs.newline_notMem hs.noComment hi]
  | _ => rfl

/-! ## Runs -/

/-- The names that the code of units loads as they stand. -/
def verbatimNames (units : List UnitCode) : List String :=
  units.flatMap fun u => u.code.filterMap (verbatimName? u.name)

/-- Operands of a list of instructions that are too large come from its own names. -/
theorem overloads_instructionSites {s : Scope} {unit : String} {is : List Instruction}
    (hunit : s.unit = some unit) (hs : s.InFunction) (his : ∀ i ∈ is, Readable i) :
    ((instructionSites s is).flatMap fun site => overloads (render site.code)) =
        (is.filterMap (verbatimName? unit)).flatMap (fun name => overloads (loadText name)) ∧
      (is.foldl Scope.after s).InFunction := by
  induction is generalizing s with
  | nil => exact ⟨rfl, hs⟩
  | cons i is ih =>
      rw [List.forall_mem_cons] at his
      obtain ⟨hsites, hend⟩ := ih (by rw [Scope.after_unit, hunit]) (hs.after his.1) his.2
      refine ⟨?_, hend⟩
      rw [instructionSites, List.flatMap_cons, hsites, overloads_code hunit hs his.1,
        List.filterMap_cons]
      cases verbatimName? unit i <;> simp

/-- So do those of a list of units. -/
theorem overloads_unitSites {s : Scope} {units : List UnitCode} (hs : s.InFunction)
    (hunits : ∀ u ∈ units, ∀ i ∈ u.code, Readable i) :
    ((unitSites s units).flatMap fun site => overloads (render site.code)) =
      (verbatimNames units).flatMap fun name => overloads (loadText name) := by
  induction units generalizing s with
  | nil => rfl
  | cons u units ih =>
      rw [List.forall_mem_cons] at hunits
      have hstart : (s.inUnit u.name).InFunction := ⟨hs.newline_notMem, hs.noComment⟩
      have hunit : (s.inUnit u.name).unit = some u.name := rfl
      obtain ⟨hsites, hend⟩ := overloads_instructionSites hunit hstart hunits.1
      have hrest := ih (s := unitEnd s u) hend hunits.2
      have hnames : verbatimNames (u :: units) =
          u.code.filterMap (verbatimName? u.name) ++ verbatimNames units :=
        List.flatMap_cons
      rw [unitSites, List.flatMap_append, hsites, hrest, hnames, List.flatMap_append]

/-- The bootstrap loads the base of the stack first, and then only the name of the entry can spell a
number. -/
theorem operands_bootstrapSites {options : Options} (h : options.bootstrap = true) :
    ∃ rest, ((bootstrapSites options).flatMap fun site => operandsIn (render site.code)) =
        Decimal.text options.stackBase.toNat :: rest ∧
      rest.filter isUnloadable = overloads (loadText options.entry) := by
  have hstack : operandsIn (render (stackBlock options.stackBase)) =
      [Decimal.text options.stackBase.toNat, "SP"] := by
    rw [operandsIn, statements_render (by simp [stackBlock])]
    simp [stackBlock, loadNumber, loadCell, copyTo, AsmLine.statement?, Statement.operand?,
      Operand.text, asRead_number]
    decide +kernel
  have hcall : overloads (render (Site.code ⟨{}, .perform (.call options.entry 0), none⟩)) =
      overloads (loadText options.entry) := by
    have hblock : ({} : Scope).block (.call options.entry 0) = .ok (callBlock options.entry 0 0) :=
      rfl
    rw [Site.code_of_block hblock, overloads_lines (fun x hx => by cases hx) (fun n hn => ?_)
      (writtenFor_of_mem_block hblock), ownLoads_block hblock]
    · simp [loadedSymbol?, Symbol.text]
    · cases hn
      decide
  refine ⟨"SP" :: operandsIn (render (Site.code ⟨{}, .perform (.call options.entry 0), none⟩)), ?_,
    ?_⟩
  · have hcode : Site.code ⟨{}, .setStack options.stackBase, some "bootstrap"⟩ =
        stackBlock options.stackBase :=
      rfl
    rw [bootstrapSites, if_pos h, List.flatMap_cons, List.flatMap_singleton, hcode, hstack,
      List.cons_append, List.singleton_append]
  · rw [List.filter_cons_of_neg (by decide +kernel)]
    exact hcall

/-- The function behind the bootstrap can be part of a label. -/
theorem inFunction_bootstrapScope (options : Options) : (bootstrapScope options).InFunction := by
  unfold bootstrapScope
  split_ifs
  · exact ⟨Scope.InFunction.start.newline_notMem, noComment_nil⟩
  · exact Scope.InFunction.start

/-- The operands of a run are those of its bootstrap and those of its units. -/
theorem operandsIn_runLines {options : Options} {units : List UnitCode}
    (h : ∀ u ∈ units, ∀ i ∈ u.code, Readable i) :
    operandsIn (render (runLines options units)) =
      ((bootstrapSites options).flatMap fun site => operandsIn (render site.code)) ++
        (unitSites (bootstrapScope options) units).flatMap fun site =>
          operandsIn (render site.code) := by
  rw [operandsIn, statements_runLines h, List.filterMap_flatMap, runSites, List.flatMap_append]
  rfl

/-- The names that a run loads as they stand. -/
def namesLoaded (options : Options) (units : List UnitCode) : List String :=
  (if options.bootstrap then [options.entry] else []) ++ verbatimNames units

/-- The operands of a text of a run, without the base of the stack. -/
def operandsBehindBase (options : Options) (text : String) : List String :=
  (operandsIn text).drop (if options.bootstrap then 1 else 0)

/-- **Behind the base of the stack, the numbers of a run that are too large are those that names
spell.** -/
theorem filter_operandsBehindBase (options : Options) {units : List UnitCode}
    (h : ∀ u ∈ units, ∀ i ∈ u.code, Readable i) :
    (operandsBehindBase options (render (runLines options units))).filter isUnloadable =
      (namesLoaded options units).flatMap fun name => overloads (loadText name) := by
  have hunits : ((unitSites (bootstrapScope options) units).flatMap fun site =>
      operandsIn (render site.code)).filter isUnloadable =
        (verbatimNames units).flatMap fun name => overloads (loadText name) := by
    rw [List.filter_flatMap]
    exact overloads_unitSites (inFunction_bootstrapScope options) h
  rw [operandsBehindBase, namesLoaded, operandsIn_runLines h]
  by_cases hboot : options.bootstrap = true
  · obtain ⟨rest, hbase, hrest⟩ := operands_bootstrapSites hboot
    rw [if_pos hboot, if_pos hboot, hbase, List.cons_append, List.drop_one, List.tail_cons,
      List.filter_append, hrest, hunits, List.singleton_append, List.flatMap_cons]
  · rw [if_neg hboot, if_neg hboot, bootstrapSites, if_neg hboot, List.drop_zero, List.flatMap_nil,
      List.nil_append, List.nil_append, hunits]

end HackVM.Lowering

namespace HackVM

open Text Source Lowering Hack

/-- **Numbers are small enough to be loaded, unless a name spells them.** Behind the base of the
stack, a number that an address instruction of a run loads is at most 32767, or it is what the
assembler reads where a name stands behind an `@`: the function of a call, the entry included, or a
static cell with the name of its unit. And nothing is kept back: the numbers that are too large are
those that the names spell, in order. -/
theorem constants_loadable (options : Options) {units : List SourceUnit} {codes : List UnitCode}
    (hread : List.Forall₂ Reads units codes) :
    ∃ a, (compile options units).result = .ok a ∧
      (∀ operand ∈ operandsBehindBase options a.text, ∀ n,
        Decimal.readUnsigned? operand.toList = some n →
        n ≤ 32767 ∨ ∃ name ∈ namesLoaded options codes, operand ∈ operandsIn (loadText name)) ∧
      (operandsBehindBase options a.text).filter isUnloadable =
        (namesLoaded options codes).flatMap fun name => overloads (loadText name) := by
  obtain ⟨a, hrun, htext⟩ := exists_text_of_reads options hread
  have hfilter := filter_operandsBehindBase options (readable_of_reads hread)
  rw [← htext] at hfilter
  refine ⟨a, hrun, ?_, hfilter⟩
  intro operand hoperand n hn
  refine or_iff_not_imp_left.mpr fun hlarge => ?_
  have hmem : operand ∈ (operandsBehindBase options a.text).filter isUnloadable := by
    refine List.mem_filter.mpr ⟨hoperand, ?_⟩
    rw [isUnloadable, hn, Option.any_some, decide_eq_true_eq, Word.maxLoadable]
    omega
  rw [hfilter] at hmem
  obtain ⟨name, hname, hmem⟩ := List.mem_flatMap.mp hmem
  exact ⟨name, hname, List.mem_of_mem_filter hmem⟩

/-- The largest number of every kind, and a call of a function whose name is a number. -/
theorem constants_loadable_beside_numeric_call :
    ∃ codes, List.Forall₂ Reads
        [SourceUnit.named "A"
          "function f 32767\npush constant 32767\npop static 65535\ncall 40000 32767\n"] codes ∧
      ∃ a, (compile { annotate := true } [SourceUnit.named "A"
          "function f 32767\npush constant 32767\npop static 65535\ncall 40000 32767\n"]).result =
            .ok a ∧
        (∀ operand ∈ operandsBehindBase { annotate := true } a.text, ∀ n,
          Decimal.readUnsigned? operand.toList = some n →
            n ≤ 32767 ∨ ∃ name ∈ ["Sys.init", "A.65535", "40000"],
              operand ∈ operandsIn (loadText name)) ∧
        (operandsBehindBase { annotate := true } a.text).filter isUnloadable = ["40000"] := by
  have hread : List.Forall₂ Reads
      [SourceUnit.named "A"
        "function f 32767\npush constant 32767\npop static 65535\ncall 40000 32767\n"]
      [⟨"A",
        [.function "f" 32767, .push .constant 32767, .pop .static 65535, .call "40000" 32767]⟩] :=
    .cons ⟨rfl, by decide +kernel⟩ .nil
  obtain ⟨a, hrun, hsmall, hlarge⟩ := constants_loadable { annotate := true } hread
  have hnames : namesLoaded { annotate := true }
      [⟨"A",
        [.function "f" 32767, .push .constant 32767, .pop .static 65535, .call "40000" 32767]⟩] =
        ["Sys.init", "A.65535", "40000"] := by
    decide +kernel
  rw [hnames] at hsmall hlarge
  refine ⟨_, hread, a, hrun, hsmall, ?_⟩
  rw [hlarge]
  decide +kernel

/-- A name can spell a number that is too large: that of a function that is called, by an
instruction or by the bootstrap, and that of a unit, where a line feed or a comment cuts the number
off from the cell behind it. -/
theorem names_unloadable :
    (∃ a, (compile .withoutBootstrap [.named "A" "call 40000 0\n"]).result = .ok a ∧
      "40000" ∈ operandsIn a.text) ∧
    (∃ a, (compile { entry := "40000" } []).result = .ok a ∧ "40000" ∈ operandsIn a.text) ∧
    (∃ a, (compile .withoutBootstrap [.named "40000\nA" "push static 0\n"]).result = .ok a ∧
      "40000" ∈ operandsIn a.text) ∧
    (∃ a, (compile .withoutBootstrap [.named "40000//A" "push static 0\n"]).result = .ok a ∧
      "40000" ∈ operandsIn a.text) ∧
    Decimal.readUnsigned? "40000".toList = some 40000 ∧ ¬40000 ≤ Word.maxLoadable := by
  have hrun : ∀ {options : Options} {units : List SourceUnit} {codes : List UnitCode},
      List.Forall₂ Reads units codes →
      "40000" ∈ (namesLoaded options codes).flatMap (fun name => overloads (loadText name)) →
        ∃ a, (compile options units).result = .ok a ∧ "40000" ∈ operandsIn a.text := by
    intro options units codes hread hmem
    obtain ⟨a, hresult, htext⟩ := exists_text_of_reads options hread
    rw [← filter_operandsBehindBase options (readable_of_reads hread), ← htext] at hmem
    exact ⟨a, hresult, List.mem_of_mem_drop (List.mem_of_mem_filter hmem)⟩
  have hpush : ∀ name,
      List.Forall₂ Reads [.named name "push static 0\n"] [⟨name, [.push .static 0]⟩] :=
    have hparse : (parse "push static 0\n").map (List.map Located.value) =
        .ok [.push .static 0] := by
      decide +kernel
    fun _ => .cons ⟨rfl, hparse⟩ .nil
  have hcall : List.Forall₂ Reads [.named "A" "call 40000 0\n"] [⟨"A", [.call "40000" 0]⟩] :=
    .cons ⟨rfl, by decide +kernel⟩ .nil
  refine ⟨hrun hcall ?_, hrun .nil ?_, hrun (hpush _) ?_, hrun (hpush _) ?_, ?_, ?_⟩
  all_goals decide +kernel

end HackVM

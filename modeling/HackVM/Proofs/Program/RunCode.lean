import HackVM.Program.Compile
import HackVM.Proofs.Source.Grammar

/-!
# The code of a run

The assembly of a run as a plain function of its options and its instructions, without writers,
sinks or source text. A run is a list of *sites* (`runSites`): a command, the scope in which it is
lowered, and the comment that annotates it. The bootstrap counts as two commands, one that sets the
stack pointer and a call of the entry function; every instruction of every unit is a command of its
own.

Main statement (`compile_of_reads`): if every unit can be read, then the run succeeds, and what it
writes is the text of the lines of its sites, in order (`runLines`).
-/

namespace HackVM.Lowering

open Source

/-! ## Sites -/

/-- What a run executes: the bootstrap's first act, or an instruction. -/
inductive Command where
  | setStack (base : Word)
  | perform (i : Instruction)
  deriving DecidableEq, Repr

/-- A command where it stands. -/
structure Site where
  /-- The scope that its code depends on. -/
  scope : Scope
  command : Command
  /-- What an annotated run writes in front of the code. -/
  comment : Option String
  deriving DecidableEq, Repr

namespace Site

/-- The code of the command. A command that has none (a misuse) is lowered to nothing. -/
def code (s : Site) : List AsmLine :=
  match s.command with
  | .setStack base => stackBlock base
  | .perform i => (s.scope.block i).toOption.getD []

/-- The lines that a run writes for the command. -/
def lines (annotate : Bool) (s : Site) : List AsmLine :=
  (if annotate then s.comment.toList.map .comment else []) ++ s.code

end Site

namespace Scope

/-- The scope behind an instruction. -/
def after (s : Scope) (i : Instruction) : Scope :=
  (s.number i).enter i

/-- The scope at the start of a unit. -/
def inUnit (s : Scope) (name : String) : Scope :=
  { s with unit := some name }

/-- Instructions stay in their unit. -/
@[simp] theorem after_unit (s : Scope) (i : Instruction) : (s.after i).unit = s.unit := by
  unfold after number
  cases i <;> split <;> rfl

end Scope

/-- A unit by its name and its instructions. -/
structure UnitCode where
  name : String
  code : List Instruction
  deriving DecidableEq, Repr

/-- The sites of instructions, the first of which stands in the given scope. -/
def instructionSites (s : Scope) : List Instruction → List Site
  | [] => []
  | i :: rest => ⟨s, .perform i, some i.text⟩ :: instructionSites (s.after i) rest

/-- The scope behind a unit that starts in the given one. -/
def unitEnd (s : Scope) (u : UnitCode) : Scope :=
  u.code.foldl Scope.after (s.inUnit u.name)

/-- The sites of units, the first of which starts in the given scope. -/
def unitSites (s : Scope) : List UnitCode → List Site
  | [] => []
  | u :: rest => instructionSites (s.inUnit u.name) u.code ++ unitSites (unitEnd s u) rest

/-- The sites of the bootstrap. -/
def bootstrapSites (options : Options) : List Site :=
  if options.bootstrap then
    [⟨{}, .setStack options.stackBase, some "bootstrap"⟩,
      ⟨{}, .perform (.call options.entry 0), none⟩]
  else []

/-- The scope behind the bootstrap. -/
def bootstrapScope (options : Options) : Scope :=
  if options.bootstrap then Scope.after {} (.call options.entry 0) else {}

/-- The sites of a run. -/
def runSites (options : Options) (units : List UnitCode) : List Site :=
  bootstrapSites options ++ unitSites (bootstrapScope options) units

/-- The lines of a run. -/
def runLines (options : Options) (units : List UnitCode) : List AsmLine :=
  (runSites options units).flatMap (Site.lines options.annotate)

/-- The scope behind a run. -/
def runEnd (options : Options) (units : List UnitCode) : Scope :=
  units.foldl unitEnd (bootstrapScope options)

/-! ## Lowering never fails on what was read -/

/-- Inside a unit, an instruction that the reader can give has code. -/
theorem Scope.block_of_readable {s : Scope} {unit : String} {i : Instruction}
    (hunit : s.unit = some unit) (hi : Readable i) : ∃ block, s.block i = .ok block := by
  cases i with
  | push seg n =>
      cases seg <;>
        exact ⟨_, by simp only [block, pushBlock, addressBlock, addressingOf, hunit]; rfl⟩
  | pop seg n =>
      have hseg : seg ≠ .constant := hi.1
      cases seg <;> first
        | exact absurd rfl hseg
        | exact ⟨_, by simp only [block, popBlock, addressBlock, addressingOf, hunit]; rfl⟩
  | _ => exact ⟨_, rfl⟩

/-- An instruction with code has that code at its site. -/
theorem Site.code_of_block {s : Scope} {i : Instruction} {c : Option String} {block : List AsmLine}
    (h : s.block i = .ok block) : Site.code ⟨s, .perform i, c⟩ = block := by
  simp [Site.code, h, Except.toOption]

/-! ## Text -/

@[simp] theorem render_append (xs ys : List AsmLine) :
    render (xs ++ ys) = render xs ++ render ys := by
  induction xs with
  | nil => simp [render]
  | cons x xs ih => simp [render, ih, String.append_assoc]

end HackVM.Lowering

namespace HackVM

open Source Lowering

/-! ## What writers write -/

namespace Writer

/-- The writer after lines were written to a sink without limit. -/
def wrote (w : Writer) (ls : List AsmLine) : Writer :=
  { w with
    sink := { w.sink with accepted := w.sink.accepted ++ (render ls).toUTF8 }
    lines := w.lines + ls.length }

@[simp] theorem wrote_limit (w : Writer) (ls : List AsmLine) :
    (w.wrote ls).sink.limit = w.sink.limit :=
  rfl

@[simp] theorem wrote_scope (w : Writer) (ls : List AsmLine) : (w.wrote ls).scope = w.scope :=
  rfl

@[simp] theorem wrote_options (w : Writer) (ls : List AsmLine) : (w.wrote ls).options = w.options :=
  rfl

@[simp] theorem wrote_nil (w : Writer) : w.wrote [] = w := by
  simp [wrote, render]

/-- Lines are written one behind the other. -/
@[simp] theorem wrote_wrote (w : Writer) (xs ys : List AsmLine) :
    (w.wrote xs).wrote ys = w.wrote (xs ++ ys) := by
  simp [wrote, Nat.add_assoc, ByteArray.append_assoc]

/-- The writer in another scope. -/
def within (w : Writer) (s : Scope) : Writer :=
  { w with scope := s }

@[simp] theorem within_limit (w : Writer) (s : Scope) : (w.within s).sink.limit = w.sink.limit :=
  rfl

@[simp] theorem within_scope (w : Writer) (s : Scope) : (w.within s).scope = s :=
  rfl

@[simp] theorem within_options (w : Writer) (s : Scope) : (w.within s).options = w.options :=
  rfl

@[simp] theorem within_within (w : Writer) (s t : Scope) : (w.within s).within t = w.within t :=
  rfl

@[simp] theorem within_self (w : Writer) : w.within w.scope = w :=
  rfl

/-- Writing does not depend on the scope. -/
theorem within_wrote (w : Writer) (s : Scope) (ls : List AsmLine) :
    (w.within s).wrote ls = (w.wrote ls).within s :=
  rfl

/-- A sink without limit takes every block. -/
theorem emit_of_unlimited {w : Writer} (h : w.sink.limit = none) (block : List AsmLine) :
    w.emit block = (.ok (), w.wrote block) := by
  simp [emit, Sink.write, h, wrote]

/-- An instruction with code is written, and the scope moves on. -/
theorem write_of_block {w : Writer} {i : Instruction} {block : List AsmLine}
    (hlimit : w.sink.limit = none) (h : w.scope.block i = .ok block) :
    w.write i = (.ok (), (w.wrote block).within (w.scope.after i)) := by
  have hemit := emit_of_unlimited (w := { w with scope := w.scope.number i }) hlimit block
  simp only [write, h, hemit, Step.andThen]
  rfl

/-- An instruction is written as its site: the comment, if any, and the code. -/
theorem lower_of_readable {w : Writer} {i : Instruction} {unit : String}
    (hlimit : w.sink.limit = none) (hunit : w.scope.unit = some unit) (hi : Readable i) :
    w.lower i =
      (.ok (), (w.wrote (Site.lines w.options.annotate ⟨w.scope, .perform i, some i.text⟩)).within
      (w.scope.after i)) := by
  obtain ⟨block, hblock⟩ := Scope.block_of_readable hunit hi
  unfold lower annotate
  rw [Site.lines, Site.code_of_block hblock]
  cases w.options.annotate with
  | false =>
      rw [if_neg (by simp), Step.andThen, write_of_block hlimit hblock]
      rfl
  | true =>
      rw [if_pos rfl, emit_of_unlimited hlimit, Step.andThen, write_of_block (by simpa using hlimit)
        (by simpa using hblock)]
      simp

/-- The writer after all sites of a list were written, and in the scope behind them. -/
def wroteSites (w : Writer) (sites : List Site) (s : Scope) : Writer :=
  (w.wrote (sites.flatMap (Site.lines w.options.annotate))).within s

/-- Sites are written one behind the other. -/
theorem wroteSites_append (w : Writer) (xs ys : List Site) (s t : Scope) :
    (w.wroteSites xs s).wroteSites ys t = w.wroteSites (xs ++ ys) t := by
  simp [wroteSites, within_wrote]

end Writer

/-! ## What a run writes -/

/-- The unit can be read, and these are its instructions. -/
structure Reads (u : SourceUnit) (c : UnitCode) : Prop where
  name_eq : c.name = u.name
  parse_eq : (parse u.source).map (List.map Located.value) = .ok c.code

/-- What is read from a source is readable. -/
theorem Reads.readable {u : SourceUnit} {c : UnitCode} (h : Reads u c) : ∀ i ∈ c.code, Readable i :=
  readable_of_parse h.parse_eq

/-- What holds of the names of units holds of what was read of them. -/
theorem forall_name_of_reads {P : String → Prop} {units : List SourceUnit} {codes : List UnitCode}
    (h : List.Forall₂ Reads units codes) (hunits : ∀ u ∈ units, P u.name) :
    ∀ c ∈ codes, P c.name := by
  induction h with
  | nil =>
      intro c hc
      cases hc
  | cons hu _ ih =>
      rw [List.forall_mem_cons] at hunits
      intro c hc
      rcases List.mem_cons.mp hc with rfl | hc
      · rw [hu.name_eq]
        exact hunits.1
      · exact ih hunits.2 c hc

/-- What was read of units can be read. -/
theorem readable_of_reads {units : List SourceUnit} {codes : List UnitCode}
    (h : List.Forall₂ Reads units codes) : ∀ u ∈ codes, ∀ i ∈ u.code, Readable i := by
  induction h with
  | nil =>
      intro u hu
      cases hu
  | cons hu _ ih =>
      intro u hmem
      rcases List.mem_cons.mp hmem with rfl | hmem
      · exact hu.readable
      · exact ih u hmem

/-- Lines that can all be read are lowered one by one, and nothing stops the run. -/
theorem readEach_lower {ls : List CodeLine} {is : List Instruction} {w : Writer} {unit : String}
    (hread : List.Forall₂ (fun l i => l.read.result.map Located.value = .ok i) ls is)
    (his : ∀ i ∈ is, Readable i) (hlimit : w.sink.limit = none) (hunit : w.scope.unit = some unit) :
    (readEach Writer.lower w ls).done = is ∧ (readEach Writer.lower w ls).failure = none ∧
      (readEach Writer.lower w ls).final =
        w.wroteSites (instructionSites w.scope is) (is.foldl Scope.after w.scope) := by
  induction hread generalizing w with
  | nil => simp [readEach, instructionSites, Writer.wroteSites]
  | @cons l i ls is hl _ ih =>
      obtain ⟨j, hj, rfl⟩ : ∃ j, l.read.result = .ok j ∧ j.value = i := by
        cases hresult : l.read.result with
        | error e => simp [hresult, Except.map] at hl
        | ok j => exact ⟨j, rfl, by simpa [hresult, Except.map] using hl⟩
      have hlower := Writer.lower_of_readable hlimit hunit (his j.value List.mem_cons_self)
      obtain ⟨hdone, hfailure, hfinal⟩ :=
        ih (w := w.wroteSites [⟨w.scope, .perform j.value, some j.value.text⟩]
          (w.scope.after j.value)) (fun i hi => his i (List.mem_cons_of_mem _ hi)) hlimit
        (by simpa [Writer.wroteSites] using hunit)
      have hstep : w.lower j.value = (.ok (), w.wroteSites
          [⟨w.scope, .perform j.value, some j.value.text⟩] (w.scope.after j.value)) := by
        rw [hlower]
        simp [Writer.wroteSites]
      simp only [readEach, hj, hstep]
      refine ⟨by rw [hdone], hfailure, ?_⟩
      rw [hfinal, Writer.wroteSites_append]
      rfl

/-- A unit that can be read is lowered as its sites. -/
theorem lowerUnit_of_reads {u : SourceUnit} {c : UnitCode} {w : Writer} (h : Reads u c)
    (hlimit : w.sink.limit = none) :
    (w.lowerUnit u).result = .ok (c.code.length,
      w.wroteSites (instructionSites (w.scope.inUnit c.name) c.code) (unitEnd w.scope c)) := by
  have hread : List.Forall₂ (fun l i => l.read.result.map Located.value = .ok i)
      (codeLines u.source) c.code := by
    rw [← mapM_eq_ok_iff, ← map_mapM, ← parse_eq_mapM]
    exact h.parse_eq
  obtain ⟨hdone, hfailure, hfinal⟩ :=
    readEach_lower (w := w.setUnit u.name) hread h.readable hlimit rfl
  rw [Outcome.result, Writer.lowerUnit, hfailure, hdone, hfinal, unitEnd, h.name_eq]
  rfl

/-- Units that can be read are lowered as their sites, one after the other. -/
theorem lowerUnits_of_reads {units : List SourceUnit} {codes : List UnitCode} {w : Writer}
    (h : List.Forall₂ Reads units codes) (hlimit : w.sink.limit = none) :
    (lowerUnits w units).result = .ok ((codes.map fun c => c.code.length).sum,
      w.wroteSites (unitSites w.scope codes) (codes.foldl unitEnd w.scope)) := by
  induction h generalizing w with
  | nil => simp [lowerUnits, unitSites, Writer.wroteSites]
  | @cons u c units codes hu _ ih =>
      have hunit := lowerUnit_of_reads hu hlimit
      have hrest := ih (w := w.wroteSites (instructionSites (w.scope.inUnit c.name) c.code)
        (unitEnd w.scope c)) hlimit
      simp only [lowerUnits, Attempt.andThen, hunit, hrest]
      rw [Writer.wroteSites_append]
      simp [unitSites, Writer.wroteSites]

/-- The writer that a run starts with has written the bootstrap. -/
theorem startWriter_eq (options : Options) :
    startWriter options = .ok (Writer.wroteSites { options } (bootstrapSites options)
      (bootstrapScope options)) := by
  unfold startWriter bootstrapSites bootstrapScope
  by_cases hboot : options.bootstrap
  · have hcall : ∀ w : Writer, w.sink.limit = none → w.scope = {} →
        w.write (.call options.entry 0) =
          (.ok (), (w.wrote (callBlock options.entry 0 0)).within
            (Scope.after {} (.call options.entry 0))) := by
      intro w hlimit hscope
      rw [← hscope]
      exact Writer.write_of_block hlimit (by rw [hscope]; rfl)
    have hemit := Writer.emit_of_unlimited (w := { options }) rfl
    rw [if_pos hboot, if_pos hboot, if_pos hboot, Writer.bootstrap, if_neg (by simp)]
    simp only [hemit, Writer.Step.andThen, Writer.wrote_options]
    rw [hcall _ rfl rfl]
    cases hannotate : options.annotate <;>
      simp [Writer.wroteSites, Site.lines, Site.code, hannotate, Scope.block, Except.toOption]
  · simp [hboot, Writer.wroteSites]
    rfl

/-- A run whose units can be read, with the last of its reports. -/
theorem compile_eq_of_reads (options : Options) {units : List SourceUnit} {codes : List UnitCode}
    (h : List.Forall₂ Reads units codes) :
    ∃ reports, compile options units =
      ⟨reports ++
        [.event (.runFinished (runLines options codes).length (runEnd options codes).labels)],
        .ok
          { bytes := (render (runLines options codes)).toUTF8
            instructions := (codes.map fun c => c.code.length).sum
            lines := (runLines options codes).length
            labels := (runEnd options codes).labels.total }⟩ := by
  have hunits := lowerUnits_of_reads (w := Writer.wroteSites { options } (bootstrapSites options)
    (bootstrapScope options)) h rfl
  rw [Writer.wroteSites_append] at hunits
  refine ⟨(lowerUnits
    (Writer.wroteSites { options } (bootstrapSites options) (bootstrapScope options))
    units).reports, ?_⟩
  simp only [compile, Attempt.andThen, startWriter_eq, hunits, closeWriter, Writer.finish,
    Sink.flush]
  simp [Writer.wroteSites, Writer.wrote, Writer.within, runLines, runSites, runEnd]

/-- **What a run writes.** If every unit can be read, the run succeeds and writes the lines of its
sites. -/
theorem compile_of_reads {options : Options} {units : List SourceUnit} {codes : List UnitCode}
    (h : List.Forall₂ Reads units codes) :
    (compile options units).result = .ok
      { bytes := (render (runLines options codes)).toUTF8
        instructions := (codes.map fun c => c.code.length).sum
        lines := (runLines options codes).length
        labels := (runEnd options codes).labels.total } := by
  obtain ⟨reports, hcompile⟩ := compile_eq_of_reads options h
  rw [hcompile]

/-- The text of a program is the text that was written. -/
theorem text_of_bytes {a : Assembly} {s : String} (h : a.bytes = s.toUTF8) : a.text = s := by
  rw [Assembly.text, h, String.fromUTF8?, String.toUTF8_eq_toByteArray, dif_pos s.isValidUTF8]
  rfl

/-- The text that a run writes. -/
theorem exists_text_of_reads (options : Options) {units : List SourceUnit} {codes : List UnitCode}
    (h : List.Forall₂ Reads units codes) :
    ∃ a, (compile options units).result = .ok a ∧ a.text = render (runLines options codes) :=
  ⟨_, compile_of_reads h, text_of_bytes rfl⟩

end HackVM

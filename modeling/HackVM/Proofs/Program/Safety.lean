import HackVM.Proofs.Program.Layout

/-!
# Programs never fault

The assembler keeps mnemonics that it does not know, and they fault when they are executed. A run is
written with mnemonics that the assembler does know, whatever its names are, as long as they stay on
one line. So no operation of an assembled run can fault, and that holds from every state of the
processor: also from one in the middle of a block, or with a program counter that points nowhere.

`Safe` gives the runs of the processor in which nothing goes wrong. It has no rule for a fault, and
its rules ask for the place of the instruction in ROM and of the cell in RAM.
-/

namespace HackVM.Hack

/-! ## Safe runs -/

/-- An operation that can be executed: its computation and its jump have a meaning. -/
def Operation.Known : Operation → Prop
  | .load _ => True
  | .compute c => (∃ value, c.value = .ok value) ∧ ∃ jump, c.jump = .ok jump

/-- The next instruction stands in ROM and can be executed, and `A` points at a cell of RAM. -/
structure Ready (rom : Array Operation) (c : Cpu) (op : Operation) : Prop where
  pc_lt : c.pc < rom.size
  op_eq : rom[c.pc] = op
  known : op.Known
  cell_lt : c.a.toNat < c.ram.cells.size

/-- The runs of at most so many instructions in which nothing goes wrong, with why and where they
stop. -/
inductive Safe (rom : Array Operation) : Nat → Cpu → Stop × Cpu → Prop where
  | outOfSteps (c : Cpu) : Safe rom 0 c (.outOfSteps, c)
  | ended (steps : Nat) {c : Cpu} (hpc : rom.size ≤ c.pc) : Safe rom (steps + 1) c (.ended, c)
  | parked (steps : Nat) {c c' : Cpu} {op : Operation} (hready : Ready rom c op)
      (hop : c.execute op = .parked c') : Safe rom (steps + 1) c (.parked, c')
  | next {steps : Nat} {c c' : Cpu} {op : Operation} {last : Stop × Cpu} (hready : Ready rom c op)
      (hop : c.execute op = .next c') (hrest : Safe rom steps c' last) : Safe rom (steps + 1) c last

/-- A safe run does not end in a fault. -/
theorem Safe.ne_fault {rom : Array Operation} {steps : Nat} {c : Cpu} {last : Stop × Cpu}
    (h : Safe rom steps c last) (f : Fault) : last.1 ≠ .fault f := by
  induction h with
  | outOfSteps | ended | parked => exact Stop.noConfusion
  | next _ _ _ ih => exact ih

/-- A known operation goes on or parks. -/
theorem Cpu.execute_of_known {op : Operation} (h : op.Known) (c : Cpu) :
    ∃ c', c.execute op = .next c' ∨ c.execute op = .parked c' := by
  cases op with
  | load value => exact ⟨_, .inl rfl⟩
  | compute instruction =>
      obtain ⟨⟨value, hvalue⟩, jump, hjump⟩ := h
      simp only [execute, compute, hvalue, hjump]
      cases jump with
      | none => exact ⟨_, .inl rfl⟩
      | some jump =>
          dsimp only
          split_ifs
          · unfold jumpTo
            split_ifs
            · exact ⟨_, .inr rfl⟩
            · exact ⟨_, .inl rfl⟩
          · exact ⟨_, .inl rfl⟩

/-- **Programs of known operations run safely**, from every state. -/
theorem safe_run {rom : Array Operation} (h : ∀ op ∈ rom, op.Known) (steps : Nat) (c : Cpu) :
    Safe rom steps c (run rom steps c) := by
  induction steps generalizing c with
  | zero => exact .outOfSteps c
  | succ steps ih =>
      by_cases hpc : c.pc < rom.size
      · have hop : rom[c.pc]? = some rom[c.pc] := Array.getElem?_eq_getElem hpc
        have hready : Ready rom c rom[c.pc] := ⟨hpc, rfl, h _ (Array.getElem_mem hpc), c.a.isLt⟩
        obtain ⟨c', hnext | hparked⟩ := c.execute_of_known hready.known
        · rw [run, hop]
          simp only [hnext]
          exact .next hready hnext (ih c')
        · rw [run, hop]
          simp only [hparked]
          exact .parked steps hready hparked
      · have hop : rom[c.pc]? = none := Array.getElem?_eq_none (Nat.le_of_not_lt hpc)
        rw [run, hop]
        exact .ended steps (Nat.le_of_not_lt hpc)

/-- Runs one after the other, each from the state in which the last one stopped. -/
def runs (rom : Array Operation) : (budgets : List Nat) → Cpu → List (Stop × Cpu)
  | [], _ => []
  | steps :: rest, c => run rom steps c :: runs rom rest (run rom steps c).2

/-- No run of a program of known operations ends in a fault. -/
theorem ne_fault_of_mem_runs {rom : Array Operation} (h : ∀ op ∈ rom, op.Known) {budgets : List Nat}
    {c : Cpu} {last : Stop × Cpu} (hlast : last ∈ runs rom budgets c) (f : Fault) :
    last.1 ≠ .fault f := by
  induction budgets generalizing c with
  | nil => cases hlast
  | cons steps rest ih =>
      rcases List.mem_cons.mp hlast with rfl | hlast
      · exact (safe_run h steps c).ne_fault f
      · exact ih hlast

end HackVM.Hack

namespace HackVM.Lowering

open Hack Source

/-! ## Assembled runs -/

/-- Lines are only ever assembled to operations that are known. -/
theorem AsmLine.known_of_operation? {table : SymbolTable} {l : AsmLine} {op : Operation}
    (h : l.operation? table = some op) : op.Known := by
  cases l with
  | comment text => cases h
  | define s => cases h
  | load o =>
      cases h
      trivial
  | assign target value =>
      cases h
      exact ⟨⟨value, rfl⟩, none, rfl⟩
  | branch tested jump =>
      cases h
      exact ⟨⟨tested, rfl⟩, some jump, rfl⟩

/-- Every operation of an assembled run is known. -/
theorem known_of_mem_rom {options : Options} {codes : List UnitCode} {op : Operation}
    (h : op ∈ (programOf (runStatements options codes)).rom) : op.Known := by
  rw [programOf, runStatements_eq, filterMap_operation?, List.mem_toArray] at h
  obtain ⟨l, -, hop⟩ := List.mem_filterMap.mp h
  exact l.known_of_operation? hop

/-- **Programs never fault.** Let a run be read, written and assembled, its units and its entry
function being named on one line. Then every computation and every jump of the program is known.
From every state of the processor, every run of it is safe: it executes instructions that stand in
the program, on cells that memory has, until it is out of steps, parked, or behind the end of the
program. However often the processor goes on from where it stopped, it never faults. -/
theorem program_never_faults {options : Options} {units : List SourceUnit} {codes : List UnitCode}
    {a : Assembly} {p : Program} (hread : List.Forall₂ Reads units codes)
    (hunits : ∀ u ∈ units, '\n' ∉ u.name.toList) (hentry : '\n' ∉ options.entry.toList)
    (hrun : (compile options units).result = .ok a) (hprogram : assemble a.text = .ok p) :
    (∀ op ∈ p.rom, op.Known) ∧
      (∀ steps c, Safe p.rom steps c (run p.rom steps c)) ∧
      ∀ budgets c, ∀ last ∈ runs p.rom budgets c, ∀ f, last.1 ≠ .fault f := by
  have hnames := namesOnLine_of_reads hread hunits hentry
  obtain ⟨-, rfl⟩ := hnames.assembled hread hrun hprogram
  have hknown : ∀ op ∈ (programOf (runStatements options codes)).rom, op.Known :=
    fun _ => known_of_mem_rom
  exact ⟨hknown, fun steps c => safe_run hknown steps c,
    fun _ _ _ hlast => ne_fault_of_mem_runs hknown hlast⟩

/-- The names may start a comment or look like code, and the processor may start behind the
program. -/
theorem program_never_faults_commented_names :
    ∃ codes a p,
      List.Forall₂ Reads
        [SourceUnit.named "//" "push static 0\nlabel =;\ngoto =;\npop static 1\nlt\n"] codes ∧
      (compile { entry := "//D=X;Y" } [SourceUnit.named "//"
        "push static 0\nlabel =;\ngoto =;\npop static 1\nlt\n"]).result = .ok a ∧
      assemble a.text = .ok p ∧
      (∀ op ∈ p.rom, op.Known) ∧
      Safe p.rom 10 { a := -1, d := -1, pc := 70000 }
        (run p.rom 10 { a := -1, d := -1, pc := 70000 }) ∧
      ∀ last ∈ runs p.rom [10, 0, 7] { a := -1, d := -1, pc := 70000 }, ∀ f, last.1 ≠ .fault f := by
  have hread : List.Forall₂ Reads
      [SourceUnit.named "//" "push static 0\nlabel =;\ngoto =;\npop static 1\nlt\n"]
      [⟨"//", [.push .static 0, .label "=;", .goto "=;", .pop .static 1, .arithmetic .lt]⟩] :=
    .cons ⟨rfl, by decide +kernel⟩ .nil
  have hnames : NamesOnLine { entry := "//D=X;Y" } _ :=
    namesOnLine_of_reads hread (by decide) (by decide)
  obtain ⟨a, p, hrun, hprogram⟩ := hnames.exists_program hread (by decide) (by decide)
  obtain ⟨hknown, hsafe, hfault⟩ := program_never_faults hread (by decide) (by decide) hrun hprogram
  exact ⟨_, a, p, hread, hrun, hprogram, hknown, hsafe 10 _, hfault [10, 0, 7] _⟩

end HackVM.Lowering

import HackVM.Hack.Cpu
import HackVM.Lowering.Block
import HackVM.Proofs.Program.RunAssembly
import Mathlib.Logic.Relation

/-!
# Running placed code

How the processor runs lines of assembly that stand in ROM. `Placed rom names b ls` says that the
lines `ls` stand from address `b` on, every operand with the value that `names` gives its name, and
every label that they define with the address it stands at. Code without jumps then does what its
lines do one after the other, in as many instructions as its size (`runs_straight`), and a branch
goes where `A` points or falls through (`runs_taken`, `runs_fallthrough`).

`Runs` counts the instructions of the processor's own `run`. A jump to the address right before it
ends a longer run as *parked*. In `Executes` it may be the last instruction, and in `Reaches`, which
is made of single steps, it is a step like any other.
-/

namespace HackVM.Hack

/-! ## Steps of the processor -/

/-- The processor executes one instruction. -/
def Step (rom : Array Operation) (c c' : Cpu) : Prop :=
  run rom 1 c = (.outOfSteps, c') ∨ run rom 1 c = (.parked, c')

/-- The processor executes any number of instructions. -/
def Reaches (rom : Array Operation) : Cpu → Cpu → Prop :=
  Relation.ReflTransGen (Step rom)

/-- What is reached from a reached state is reached. -/
theorem Reaches.trans {rom : Array Operation} {c c' c'' : Cpu} (h : Reaches rom c c')
    (h' : Reaches rom c' c'') : Reaches rom c c'' :=
  Relation.ReflTransGen.trans h h'

theorem Reaches.refl (rom : Array Operation) (c : Cpu) : Reaches rom c c :=
  Relation.ReflTransGen.refl

/-- One instruction that goes on is a step. -/
theorem reaches_of_next {rom : Array Operation} {c c' : Cpu} {op : Operation}
    (hop : rom[c.pc]? = some op) (h : c.execute op = .next c') : Reaches rom c c' := by
  apply Relation.ReflTransGen.single
  left
  simp only [run, hop, h]

/-- A jump is a step, whether or not it parks the machine. -/
theorem step_of_jumpTo {rom : Array Operation} {c : Cpu} {op : Operation} {target : Word}
    (hop : rom[c.pc]? = some op) (h : c.execute op = c.jumpTo target) :
    Step rom c { c with pc := target.toNat } := by
  unfold Cpu.jumpTo at h
  split_ifs at h
  · right
    simp only [run, hop, h]
  · left
    simp only [run, hop, h]

/-- A jump reaches its target. -/
theorem reaches_of_jumpTo {rom : Array Operation} {c : Cpu} {op : Operation} {target : Word}
    (hop : rom[c.pc]? = some op) (h : c.execute op = c.jumpTo target) :
    Reaches rom c { c with pc := target.toNat } :=
  Relation.ReflTransGen.single (step_of_jumpTo hop h)

/-- The processor gets from one state to another in a number of instructions. A jump to the address
right before it ends a run as *parked*, in the state behind the jump. -/
def Executes (rom : Array Operation) (n : Nat) (c c' : Cpu) : Prop :=
  run rom n c = (.outOfSteps, c') ∨ run rom n c = (.parked, c')

/-- A number of operations leads to one state only. -/
theorem Executes.unique {rom : Array Operation} {n : Nat} {c c' c'' : Cpu} (h : Executes rom n c c')
    (h' : Executes rom n c c'') : c' = c'' := by
  rcases h with h | h <;> rcases h' with h' | h' <;>
    exact congrArg Prod.snd (h.symm.trans h')

/-- An instruction that goes on counts for one. -/
theorem Executes.of_next {rom : Array Operation} {n : Nat} {c c' c'' : Cpu} {op : Operation}
    (hop : rom[c.pc]? = some op) (h : c.execute op = .next c') (hrest : Executes rom n c' c'') :
    Executes rom (n + 1) c c'' := by
  unfold Executes at hrest ⊢
  simpa only [run, hop, h] using hrest

/-- A state that operations lead to is reached. -/
theorem Executes.reaches {rom : Array Operation} {n : Nat} {c c' : Cpu} (h : Executes rom n c c') :
    Reaches rom c c' := by
  induction n generalizing c with
  | zero =>
      rcases h with h | h
      · cases h
        exact Reaches.refl rom _
      · cases h
  | succ n ih =>
      unfold Executes at h
      cases hop : rom[c.pc]? with
      | none => simp [run, hop] at h
      | some op =>
          cases hexecute : c.execute op with
          | next c₁ =>
              simp only [run, hop, hexecute] at h
              exact (reaches_of_next hop hexecute).trans (ih h)
          | parked c₁ =>
              simp only [run, hop, hexecute] at h
              apply Relation.ReflTransGen.single
              right
              rcases h with h | h
              · cases h
              · cases h
                simp only [run, hop, hexecute]
          | fault f c₁ => simp [run, hop, hexecute] at h

/-- The processor executes a number of instructions, and none of them parks it. -/
def Runs (rom : Array Operation) (n : Nat) (c c' : Cpu) : Prop :=
  run rom n c = (.outOfSteps, c')

theorem Runs.refl (rom : Array Operation) (c : Cpu) : Runs rom 0 c c :=
  rfl

/-- One operation more at the front. -/
theorem Runs.of_next {rom : Array Operation} {n : Nat} {c c' c'' : Cpu} {op : Operation}
    (hop : rom[c.pc]? = some op) (h : c.execute op = .next c') (hrest : Runs rom n c' c'') :
    Runs rom (n + 1) c c'' := by
  unfold Runs at hrest ⊢
  simpa only [run, hop, h] using hrest

/-- A longer run goes on from where a shorter one ends. -/
theorem Runs.run_add {rom : Array Operation} {n : Nat} {c c' : Cpu} (h : Runs rom n c c')
    (k : Nat) : run rom (n + k) c = run rom k c' := by
  induction n generalizing c with
  | zero =>
      cases h
      rw [Nat.zero_add]
  | succ n ih =>
      unfold Runs at h
      rw [Nat.add_right_comm]
      cases hop : rom[c.pc]? with
      | none => simp [run, hop] at h
      | some op =>
          cases hexecute : c.execute op with
          | next c₁ =>
              simp only [run, hop, hexecute] at h ⊢
              exact ih h
          | parked c₁ => simp [run, hop, hexecute] at h
          | fault f c₁ => simp [run, hop, hexecute] at h

/-- Runs are put one behind the other, and their lengths add up. -/
theorem Runs.trans {rom : Array Operation} {n k : Nat} {c c' c'' : Cpu} (h : Runs rom n c c')
    (h' : Runs rom k c' c'') : Runs rom (n + k) c c'' :=
  (h.run_add k).trans h'

/-- A run goes on with an execution. -/
theorem Runs.executes {rom : Array Operation} {n k : Nat} {c c' c'' : Cpu} (h : Runs rom n c c')
    (h' : Executes rom k c' c'') : Executes rom (n + k) c c'' := by
  unfold Executes
  rw [h.run_add k]
  exact h'

/-- A run reaches its last state. -/
theorem Runs.reaches {rom : Array Operation} {n : Nat} {c c' : Cpu} (h : Runs rom n c c') :
    Reaches rom c c' :=
  Executes.reaches (.inl h)

/-- From one RAM and address the machine gets to another, whatever is in its registers. -/
def Leads (rom : Array Operation) (m : Memory) (pc : Nat) (m' : Memory) (pc' : Nat) : Prop :=
  ∀ a d, ∃ a' d', Reaches rom ⟨m, a, d, pc⟩ ⟨m', a', d', pc'⟩

theorem Leads.refl (rom : Array Operation) (m : Memory) (pc : Nat) : Leads rom m pc m pc :=
  fun a d => ⟨a, d, Reaches.refl rom _⟩

/-- Code that leads on from where other code led. -/
theorem Leads.trans {rom : Array Operation} {m m' m'' : Memory} {pc pc' pc'' : Nat}
    (h : Leads rom m pc m' pc') (h' : Leads rom m' pc' m'' pc'') : Leads rom m pc m'' pc'' := by
  intro a d
  obtain ⟨a', d', hreach⟩ := h a d
  obtain ⟨a'', d'', hreach'⟩ := h' a' d'
  exact ⟨a'', d'', hreach.trans hreach'⟩

/-- The machine gets from one RAM and address to another in a number of instructions. -/
def LeadsIn (rom : Array Operation) (n : Nat) (m : Memory) (pc : Nat) (m' : Memory) (pc' : Nat) :
    Prop :=
  ∀ a d, ∃ a' d', Executes rom n ⟨m, a, d, pc⟩ ⟨m', a', d', pc'⟩

theorem LeadsIn.refl (rom : Array Operation) (m : Memory) (pc : Nat) : LeadsIn rom 0 m pc m pc :=
  fun a d => ⟨a, d, .inl rfl⟩

/-- The number of operations may be forgotten. -/
theorem LeadsIn.leads {rom : Array Operation} {n : Nat} {m m' : Memory} {pc pc' : Nat}
    (h : LeadsIn rom n m pc m' pc') : Leads rom m pc m' pc' := by
  intro a d
  obtain ⟨a', d', hrun⟩ := h a d
  exact ⟨a', d', hrun.reaches⟩

/-- There is only one address to get to. -/
theorem LeadsIn.pc_unique {rom : Array Operation} {n : Nat} {m m' m'' : Memory} {pc pc' pc'' : Nat}
    (h : LeadsIn rom n m pc m' pc') (h' : LeadsIn rom n m pc m'' pc'') : pc' = pc'' := by
  obtain ⟨a', d', hrun⟩ := h 0 0
  obtain ⟨a'', d'', hrun'⟩ := h' 0 0
  exact congrArg Cpu.pc (hrun.unique hrun')

end HackVM.Hack

namespace HackVM.Lowering

open Hack

/-! ## Placed lines -/

/-- The value of an operand, if names have the given values. -/
def Operand.value (names : String → Word) : Operand → Word
  | .number n => n
  | .symbol (.cell c) => c.address
  | .symbol s => names s.text

/-- The lines stand in ROM from an address on. -/
def Placed (rom : Array Operation) (names : String → Word) : Nat → List AsmLine → Prop
  | _, [] => True
  | b, .comment _ :: ls => Placed rom names b ls
  | b, .define s :: ls => (names s.text).toNat = b ∧ Placed rom names b ls
  | b, .load o :: ls => rom[b]? = some (.load (o.value names)) ∧ Placed rom names (b + 1) ls
  | b, .assign target value :: ls =>
    rom[b]? = some (.compute ⟨⟨target = .a, target = .d, target = .m⟩, .ok value, .ok none⟩) ∧
      Placed rom names (b + 1) ls
  | b, .branch tested jump :: ls =>
    rom[b]? = some (.compute ⟨⟨false, false, false⟩, .ok tested, .ok (some jump)⟩) ∧
      Placed rom names (b + 1) ls

variable {rom : Array Operation} {names : String → Word}

/-- Code is placed if its front is, and its rest right behind it. -/
theorem placed_append {b : Nat} {ls ms : List AsmLine} :
    Placed rom names b (ls ++ ms) ↔ Placed rom names b ls ∧ Placed rom names (b + size ls) ms := by
  induction ls generalizing b with
  | nil => simp [Placed, size]
  | cons l ls ih =>
      cases l with
      | comment text => simpa only [List.cons_append, Placed, size] using ih
      | define s => simp only [List.cons_append, Placed, size, ih, and_assoc]
      | load o =>
          simp only [List.cons_append, Placed, size, ih, and_assoc, Nat.add_assoc, Nat.add_comm 1]
      | assign target value =>
          simp only [List.cons_append, Placed, size, ih, and_assoc, Nat.add_assoc, Nat.add_comm 1]
      | branch tested jump =>
          simp only [List.cons_append, Placed, size, ih, and_assoc, Nat.add_assoc, Nat.add_comm 1]

/-! ## Code without jumps -/

/-- Stores a result in a register, or in the cell that `A` points at. -/
def storeIn (c : Cpu) (out : Word) : Register → Cpu
  | .a => { c with a := out, pc := c.pc + 1 }
  | .d => { c with d := out, pc := c.pc + 1 }
  | .m => { c with ram := c.ram.write c.a out, pc := c.pc + 1 }

/-- What a line does to the machine; a branch falls through. -/
def AsmLine.exec (names : String → Word) (c : Cpu) : AsmLine → Cpu
  | .comment _ | .define _ => c
  | .load o => { c with a := o.value names, pc := c.pc + 1 }
  | .assign target value => storeIn c (value.eval c.a c.d (c.ram.read c.a)) target
  | .branch _ _ => { c with pc := c.pc + 1 }

/-- What lines do one after the other. -/
def execAll (names : String → Word) (c : Cpu) (ls : List AsmLine) : Cpu :=
  ls.foldl (AsmLine.exec names) c

/-- Code takes effect in its order. -/
theorem execAll_append (c : Cpu) (ls ms : List AsmLine) :
    execAll names c (ls ++ ms) = execAll names (execAll names c ls) ms :=
  List.foldl_append

/-- The line is a branch. -/
def AsmLine.isBranch : AsmLine → Bool
  | .branch _ _ => true
  | _ => false

/-- Code without jumps takes up its size. -/
theorem execAll_pc (c : Cpu) (ls : List AsmLine) : (execAll names c ls).pc = c.pc + size ls := by
  induction ls generalizing c with
  | nil => rfl
  | cons l ls ih =>
      rw [execAll, List.foldl_cons]
      have hrest := ih (l.exec names c)
      unfold execAll at hrest
      rw [hrest]
      cases l with
      | assign target value =>
          cases target <;> simp only [AsmLine.exec, storeIn, size] <;> omega
      | comment text => rfl
      | define s => rfl
      | load o =>
          simp only [AsmLine.exec, size]
          omega
      | branch tested jump =>
          simp only [AsmLine.exec, size]
          omega

/-- **Code without jumps does what its lines do**, in as many instructions as its size. -/
theorem runs_straight {c : Cpu} {ls : List AsmLine} (hplaced : Placed rom names c.pc ls)
    (hstraight : ls.all (fun l => !l.isBranch) = true) :
    Runs rom (size ls) c (execAll names c ls) := by
  induction ls generalizing c with
  | nil => exact Runs.refl rom c
  | cons l ls ih =>
      rw [List.all_cons, Bool.and_eq_true] at hstraight
      rw [execAll, List.foldl_cons]
      cases l with
      | comment text => exact ih hplaced hstraight.2
      | define s => exact ih hplaced.2 hstraight.2
      | load o => exact Runs.of_next hplaced.1 rfl (ih hplaced.2 hstraight.2)
      | assign target value =>
          cases target with
          | a => exact Runs.of_next hplaced.1 rfl (ih hplaced.2 hstraight.2)
          | d => exact Runs.of_next hplaced.1 rfl (ih hplaced.2 hstraight.2)
          | m => exact Runs.of_next hplaced.1 rfl (ih hplaced.2 hstraight.2)
      | branch tested jump => exact absurd hstraight.1 (by simp [AsmLine.isBranch])

/-- Straight code reaches the state that its effects make. -/
theorem reaches_execAll {c : Cpu} {ls : List AsmLine} (hplaced : Placed rom names c.pc ls)
    (hstraight : ls.all (fun l => !l.isBranch) = true) : Reaches rom c (execAll names c ls) :=
  (runs_straight hplaced hstraight).reaches

section branch

variable {c : Cpu} {tested : Computation} {jump : Jump} {ls : List AsmLine}
  (hplaced : Placed rom names c.pc (.branch tested jump :: ls))
include hplaced

/-- A branch whose jump is taken goes where `A` points. -/
theorem reaches_taken (h : jump.taken (tested.eval c.a c.d (c.ram.read c.a)) = true) :
    Reaches rom c { c with pc := c.a.toNat } := by
  apply reaches_of_jumpTo hplaced.1
  exact if_pos h

/-- A branch does not park the machine if it goes anywhere but right before itself. -/
theorem runs_taken (h : jump.taken (tested.eval c.a c.d (c.ram.read c.a)) = true)
    (haway : c.a.toNat + 1 ≠ c.pc) : Runs rom 1 c { c with pc := c.a.toNat } := by
  have hjump : c.execute (.compute ⟨⟨false, false, false⟩, .ok tested, .ok (some jump)⟩) =
      c.jumpTo c.a := if_pos h
  exact Runs.of_next hplaced.1 (hjump.trans (if_neg haway)) (Runs.refl rom _)

/-- A branch whose jump is not taken falls through. -/
theorem runs_fallthrough (h : jump.taken (tested.eval c.a c.d (c.ram.read c.a)) = false) :
    Runs rom 1 c { c with pc := c.pc + 1 } := by
  have hnext : c.execute (.compute ⟨⟨false, false, false⟩, .ok tested, .ok (some jump)⟩) =
      .next { c with pc := c.pc + 1 } := if_neg (by rw [h]; decide)
  exact Runs.of_next hplaced.1 hnext (Runs.refl rom _)

end branch

end HackVM.Lowering

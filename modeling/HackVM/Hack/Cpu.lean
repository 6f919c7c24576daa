import HackVM.Hack.Assembler

/-!
# The Hack processor

The processor has a RAM of 2^16 words, the registers `A` and `D`, and a program counter. A load sets
`A`. A compute instruction evaluates its computation on the registers and on the cell that `A`
points at, stores the result, and jumps to the address that `A` held *before* if its jump is taken.
A run executes at most a given number of instructions and says why it stopped.
-/

namespace HackVM.Hack

/-! ### Memory -/

/-- One word for every address. -/
structure Memory where
  cells : Vector Word 65536

namespace Memory

/-- The memory of a machine that was just switched on. -/
def zero : Memory :=
  ⟨Vector.replicate _ 0⟩

/-- The word at an address. -/
def read (m : Memory) (address : Word) : Word :=
  getElem m.cells address.toNat address.isLt

/-- Puts a word at an address. -/
def write (m : Memory) (address value : Word) : Memory :=
  ⟨m.cells.set address.toNat value address.isLt⟩

@[simp] theorem read_write (m : Memory) (a b v : Word) :
    (m.write a v).read b = if a = b then v else m.read b := by
  simp only [read, write, Vector.getElem_set, BitVec.toNat_inj]

end Memory

/-! ### The processor -/

/-- The state of a machine. -/
structure Cpu where
  ram : Memory := .zero
  a : Word := 0
  d : Word := 0
  pc : Nat := 0

/-- Why an instruction cannot be executed. -/
inductive Fault where
  | unknownComputation (text : String)
  | unknownJump (text : String)
  deriving DecidableEq, Repr

/-- The wording of a fault. -/
def Fault.message : Fault → String
  | .unknownComputation text => "unknown computation " ++ text
  | .unknownJump text => "unknown jump " ++ text

/-- What came of one instruction. -/
inductive Progress where
  | next (cpu : Cpu)
  /-- It jumped to the address right before its own: the program goes round in place. -/
  | parked (cpu : Cpu)
  /-- It has no meaning. What it did until this showed stays done. -/
  | fault (f : Fault) (cpu : Cpu)

namespace Cpu

/-- Stores a result, in memory at the address that `A` still holds. -/
def store (cpu : Cpu) (dest : Destinations) (out : Word) : Cpu :=
  let ⟨ram, a, d, pc⟩ := cpu
  { ram := if dest.m then ram.write a out else ram
    a := if dest.a then out else a
    d := if dest.d then out else d
    pc }

/-- Goes to an address. -/
def jumpTo (cpu : Cpu) (target : Word) : Progress :=
  if target.toNat + 1 = cpu.pc then .parked { cpu with pc := target.toNat }
  else .next { cpu with pc := target.toNat }

/-- Executes a compute instruction. -/
def compute (cpu : Cpu) (c : Compute) : Progress :=
  match c.value with
  | .error text => .fault (.unknownComputation text) cpu
  | .ok value =>
    let target := cpu.a
    let out := value.eval cpu.a cpu.d (cpu.ram.read cpu.a)
    let cpu := cpu.store c.dest out
    match c.jump with
    | .error text => .fault (.unknownJump text) cpu
    | .ok none => .next { cpu with pc := cpu.pc + 1 }
    | .ok (some jump) =>
      if jump.taken out then cpu.jumpTo target else .next { cpu with pc := cpu.pc + 1 }

/-- Executes an operation. -/
def execute (cpu : Cpu) : Operation → Progress
  | .load value => .next { cpu with a := value, pc := cpu.pc + 1 }
  | .compute c => cpu.compute c

end Cpu

/-- Why a run stopped. -/
inductive Stop where
  /-- The program counter left the program. -/
  | ended
  | parked
  /-- The given number of instructions was executed. -/
  | outOfSteps
  | fault (f : Fault)
  deriving DecidableEq, Repr

/-- Executes at most `steps` instructions. -/
def run (rom : Array Operation) : (steps : Nat) → Cpu → Stop × Cpu
  | 0, cpu => (.outOfSteps, cpu)
  | steps + 1, cpu =>
    match rom[cpu.pc]? with
    | none => (.ended, cpu)
    | some op =>
      match cpu.execute op with
      | .next cpu => run rom steps cpu
      | .parked cpu => (.parked, cpu)
      | .fault f cpu => (.fault f, cpu)

end HackVM.Hack

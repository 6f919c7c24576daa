import HackVM.Hack.Cpu
import HackVM.Proofs.Program.RunAssembly

/-!
# The stack machine

What the instructions of a run mean, said on RAM alone. A state of the machine is a RAM and the
position of a site; a step carries out the command at that position. The stack lies in RAM and `SP`
points behind its top, so nothing keeps a program from overwriting a cell that the machine itself
uses. Every effect is therefore given as the reads and writes that make it up, in order: a push
writes the cell that `SP` points at and then counts `SP` up, a pop counts `SP` down and then reads.

* Arithmetic wraps at 16 bits, and a comparison goes by the sign of the wrapped difference.
* A pop into a segment parks the address in `R13` before the stack moves.
* A call pushes the address of the site behind it and the four bases; a return takes them back from
  below the frame, through `R13` and `R14`.
* A function pushes a zero for each local while it counts down in `R13`. Where the stack keeps clear
  of `R13`, that is as many zeros as there are locals, and `R13` is 0 afterwards (`clearLocals_eq`).
* Names live in one space: a function has its own name, and the label `l` of the function `f` is
  `f.l`.

An address of the program is the number of operations before a site (`addressOf`); it is what a call
saves and a return goes back to.
-/

namespace HackVM.Hack.Memory

/-! ## Memory -/

/-- A memory is what it can be read as. -/
theorem ext_read {m m' : Memory} (h : ∀ a, m.read a = m'.read a) : m = m' := by
  obtain ⟨cells⟩ := m
  obtain ⟨cells'⟩ := m'
  congr 1
  apply Vector.ext
  intro i hi
  have hread := h (BitVec.ofNat 16 i)
  simp only [read, BitVec.toNat_ofNat] at hread
  have hmod : i % 2 ^ 16 = i := Nat.mod_eq_of_lt hi
  simpa only [hmod] using hread

/-- The last value written to a cell stays. -/
theorem write_write (m : Memory) (a v w : Word) : (m.write a v).write a w = m.write a w := by
  apply ext_read
  intro b
  simp only [read_write]
  split_ifs <;> rfl

/-- Writes to different cells may be swapped. -/
theorem write_comm {m : Memory} {a b v w : Word} (h : a ≠ b) :
    (m.write a v).write b w = (m.write b w).write a v := by
  apply ext_read
  intro c
  simp only [read_write]
  split_ifs with hb ha
  · exact absurd (ha.trans hb.symm) h
  · rfl
  · rfl
  · rfl

end HackVM.Hack.Memory

namespace HackVM.Machine

open Hack Lowering

/-! ## Cells and the stack -/

/-- The content of a cell. -/
def get (c : Cell) (m : Memory) : Word :=
  m.read c.address

/-- Puts a word into a cell. -/
def set (c : Cell) (v : Word) (m : Memory) : Memory :=
  m.write c.address v

/-- Writes behind the top of the stack, then counts `SP` up. -/
def push (v : Word) (m : Memory) : Memory :=
  let m := m.write (get .sp m) v
  set .sp (get .sp m + 1) m

/-- Counts `SP` down, then reads what it points at. -/
def pop (m : Memory) : Word × Memory :=
  let m := set .sp (get .sp m - 1) m
  (m.read (get .sp m), m)

/-! ## Operators -/

/-- True is -1, false is 0. -/
def truth (b : Bool) : Word :=
  if b then -1 else 0

/-- Pops the upper operand and puts the result in the place of the lower one. -/
def binary (f : Word → Word → Word) (m : Memory) : Memory :=
  let (y, m) := pop m
  let a := get .sp m - 1
  m.write a (f (m.read a) y)

/-- Changes the top of the stack in place. -/
def unary (f : Word → Word) (m : Memory) : Memory :=
  let a := get .sp m - 1
  m.write a (f (m.read a))

/-- What an operator does. -/
def operate : Operator → Memory → Memory
  | .add => binary fun x y => x + y
  | .sub => binary fun x y => x - y
  | .and => binary fun x y => x &&& y
  | .or => binary fun x y => x ||| y
  | .eq => binary fun x y => truth ((x - y).toInt = 0)
  | .gt => binary fun x y => truth (0 < (x - y).toInt)
  | .lt => binary fun x y => truth ((x - y).toInt < 0)
  | .neg => unary fun x => -x
  | .not => unary fun x => ~~~x

/-! ## Segments -/

/-- The address of a cell of a segment. The cells of `static` are given. -/
def segmentCell (static : Word → Word) (m : Memory) (index : Word) : Segment → Word
  | .constant => index
  | .local => get .lcl m + index
  | .argument => get .arg m + index
  | .this => get .this m + index
  | .that => get .that m + index
  | .pointer => Cell.this.address + index
  | .temp => Cell.r5.address + index
  | .static => static index

/-- What a push pushes. -/
def segmentValue (static : Word → Word) (m : Memory) (index : Word) : Segment → Word
  | .constant => index
  | segment => m.read (segmentCell static m index segment)

/-- Parks an address in `R13`, pops, and stores at what `R13` points at. -/
def popTo (a : Word) (m : Memory) : Memory :=
  let m := set .r13 a m
  let (v, m) := pop m
  m.write (get .r13 m) v

/-! ## Frames -/

/-- Saves the return address and the four bases, and moves `LCL` and `ARG` for a call with `args`
arguments. -/
def enterFrame (returnAddress args : Word) (m : Memory) : Memory :=
  let m := push returnAddress m
  let m := push (get .lcl m) m
  let m := push (get .arg m) m
  let m := push (get .this m) m
  let m := push (get .that m) m
  let top := get .sp m
  set .arg (top - args - frameWords) (set .lcl top m)

/-- Takes back a cell from its place below the frame that `R13` points at. -/
def restore (c : Cell) (depth : Word) (m : Memory) : Memory :=
  set c (m.read (get .r13 m - depth)) m

/-- Takes down the frame and leaves the popped word on the caller's stack. The address to go back to
is read before that word is stored. -/
def leaveFrame (m : Memory) : Word × Memory :=
  let frame := get .lcl m
  let m := set .r13 frame m
  let m := set .r14 (m.read (frame - frameWords)) m
  let (v, m) := pop m
  let result := get .arg m
  let m := m.write result v
  let m := set .sp (result + 1) m
  let m := restore .lcl 4 (restore .arg 3 (restore .this 2 (restore .that 1 m)))
  (get .r14 m, m)

/-- Pushes a zero for each local, while the number of those to come waits in `R13`. A stack that
runs over `R13` ends it early. -/
def clearLocals : Nat → Memory → Memory
  | 0, m => m
  | n + 1, m =>
    let m := push 0 (set .r13 (BitVec.ofNat 16 n) m)
    if get .r13 m = BitVec.ofNat 16 n then clearLocals n m else m

/-- Pushes a number of zeros. -/
def pushZeros : Nat → Memory → Memory
  | 0, m => m
  | n + 1, m => pushZeros n (push 0 m)

/-! ## Programs -/

/-- The address of the site at a position: the number of operations before it. -/
def addressOf (sites : List Site) (k : Nat) : Nat :=
  ((sites.take k).map fun s => size s.code).sum

/-- The first position with an address; the end counts as a position. -/
def positionAt (sites : List Site) (address : Word) : Option Nat :=
  (List.range (sites.length + 1)).find? fun k => addressOf sites k = address.toNat

/-- The name that a site declares. -/
def declared? (s : Site) : Option String :=
  match s.command with
  | .perform (.function name _) => some name
  | .perform (.label name) => some (Symbol.scoped s.scope.function name).text
  | _ => none

/-- The name that a site may go to. -/
def target? (s : Site) : Option String :=
  match s.command with
  | .perform (.goto name) => some (Symbol.scoped s.scope.function name).text
  | .perform (.ifGoto name) => some (Symbol.scoped s.scope.function name).text
  | .perform (.call name _) => some name
  | _ => none

/-- The position of the site that declares a name. -/
def locate (sites : List Site) (name : String) : Option Nat :=
  sites.findIdx? fun s => declared? s = some name

/-- The static cell that a site uses: its unit and its index there. -/
def static? (s : Site) : Option (String × Word) :=
  match s.command, s.scope.unit with
  | .perform (.push .static index), some unit => some (unit, index)
  | .perform (.pop .static index), some unit => some (unit, index)
  | _, _ => none

/-- The static cells of a program, in the order of their first use. -/
def statics (sites : List Site) : List (String × Word) :=
  (sites.filterMap static?).eraseDups

/-- The address of a static cell: they follow each other in the order of their first use. -/
def staticCell (sites : List Site) (unit : String) (index : Word) : Word :=
  BitVec.ofNat 16 (firstVariable + (statics sites).idxOf (unit, index))

/-! ## Steps -/

/-- Where a command goes on. -/
inductive Control where
  | next
  | goTo (name : String)
  | back (address : Word)
  deriving DecidableEq, Repr

/-- What a command does to RAM and where it goes on. The address is the one of the site behind
it. -/
def effect (static : String → Word → Word) (behind : Word) (s : Site) (m : Memory) :
    Memory × Control :=
  let cell := static (s.scope.unit.getD "")
  match s.command with
  | .setStack base => (set .sp base m, .next)
  | .perform (.arithmetic op) => (operate op m, .next)
  | .perform (.push segment index) => (push (segmentValue cell m index segment) m, .next)
  | .perform (.pop segment index) => (popTo (segmentCell cell m index segment) m, .next)
  | .perform (.label _) => (m, .next)
  | .perform (.goto name) => (m, .goTo (Symbol.scoped s.scope.function name).text)
  | .perform (.ifGoto name) =>
    let (v, m) := pop m
    (m, if v = 0 then .next else .goTo (Symbol.scoped s.scope.function name).text)
  | .perform (.function _ locals) => (clearLocals locals.toNat m, .next)
  | .perform (.call name args) => (enterFrame behind args m, .goTo name)
  | .perform .ret =>
    let (address, m) := leaveFrame m
    (m, .back address)

/-- The position at which a command goes on. -/
def resolve (sites : List Site) (pc : Nat) : Control → Option Nat
  | .next => some (pc + 1)
  | .goTo name => locate sites name
  | .back address => positionAt sites address

/-- A state of the machine. -/
structure State where
  ram : Memory
  /-- The position of the site to be carried out next. -/
  pc : Nat

/-- Carries out one command. There is no next state behind the last site, after a jump to a name
that is not declared, and after a return to an address that is none of a site. -/
def step (sites : List Site) (s : State) : Option State :=
  match sites[s.pc]? with
  | none => none
  | some site =>
    let (ram, control) :=
      effect (staticCell sites) (BitVec.ofNat 16 (addressOf sites (s.pc + 1))) site s.ram
    (resolve sites s.pc control).map fun pc => ⟨ram, pc⟩

/-- Carries out a number of commands. -/
def steps (sites : List Site) : Nat → State → Option State
  | 0, s => some s
  | k + 1, s => (step sites s).bind (steps sites k)

/-! ## Locals -/

/-- A cell holds what was put there. -/
theorem get_set_self (c : Cell) (v : Word) (m : Memory) : get c (set c v m) = v := by
  rw [get, set, Memory.read_write, if_pos rfl]

/-- Other cells are as they were. -/
theorem get_set_of_ne {c c' : Cell} (h : c' ≠ c) (v : Word) (m : Memory) :
    get c (set c' v m) = get c m := by
  have haddress : c'.address ≠ c.address := by
    intro heq
    apply h
    cases c' <;> cases c <;> first | rfl | exact absurd heq (by decide)
  rw [get, set, Memory.read_write, if_neg haddress, get]

/-- A cell holds what was last put into it. -/
theorem get_set (c c' : Cell) (v : Word) (m : Memory) :
    get c (set c' v m) = if c' = c then v else get c m := by
  split_ifs with h
  · rw [h, get_set_self]
  · exact get_set_of_ne h v m

/-- A push of zero counts `SP` up, also where `SP` points at itself. -/
theorem get_sp_push_zero (m : Memory) : get .sp (push 0 m) = get .sp m + 1 := by
  have hkept : get .sp (m.write (get .sp m) 0) = get .sp m := by
    unfold get
    rw [Memory.read_write]
    split_ifs with h
    · rw [h]
      rfl
    · rfl
  rw [push, get_set_self, hkept]

theorem add_one_add_ofNat (w : Word) (i : Nat) :
    w + 1 + BitVec.ofNat 16 i = w + BitVec.ofNat 16 (i + 1) := by
  have hnext : (1 : Word) + BitVec.ofNat 16 i = BitVec.ofNat 16 (i + 1) := by
    rw [BitVec.add_comm, BitVec.ofNat_add]
    rfl
  rw [BitVec.add_assoc, hnext]

/-- The next `n` pushes keep clear of `R13`. -/
def ClearOfR13 (n : Nat) (m : Memory) : Prop :=
  ∀ i < n, get .sp m + BitVec.ofNat 16 i ≠ Cell.r13.address

/-- The first local is not put into `R13`. -/
theorem ClearOfR13.head {n : Nat} {m : Memory} (h : ClearOfR13 (n + 1) m) :
    get .sp m ≠ Cell.r13.address := by
  have hzero := h 0 (Nat.succ_pos n)
  rwa [BitVec.add_zero] at hzero

/-- Nor are the others, once the first one is cleared. -/
theorem ClearOfR13.tail {n : Nat} {m : Memory} (h : ClearOfR13 (n + 1) m) :
    ClearOfR13 n (push 0 m) := by
  intro i hi
  rw [get_sp_push_zero, add_one_add_ofNat]
  exact h (i + 1) (by omega)

/-- A push of zero leaves `R13` alone where the stack keeps clear of it. -/
theorem push_zero_set_r13 {m : Memory} (h : get .sp m ≠ Cell.r13.address) (v : Word) :
    push 0 (set .r13 v m) = set .r13 v (push 0 m) := by
  have hsp : get .sp (set .r13 v m) = get .sp m := get_set_of_ne (by decide) v m
  have hsp' : get .sp (set .r13 v (m.write (get .sp m) 0)) = get .sp (m.write (get .sp m) 0) :=
    get_set_of_ne (by decide) v _
  have hwrite : (set .r13 v m).write (get .sp m) 0 = set .r13 v (m.write (get .sp m) 0) :=
    Memory.write_comm h.symm
  unfold push
  rw [hsp, hwrite]
  simp only [hsp']
  exact Memory.write_comm (by decide)

/-- Clearing locals away from `R13` may be done before or after setting it. -/
theorem pushZeros_set_r13 {n : Nat} {m : Memory} (h : ClearOfR13 n m) (v : Word) :
    pushZeros n (set .r13 v m) = set .r13 v (pushZeros n m) := by
  induction n generalizing m with
  | zero => rfl
  | succ n ih => rw [pushZeros, push_zero_set_r13 h.head, ih h.tail, pushZeros]

/-- **Locals on a clear stack**: as many zeros as there are locals, and the count in `R13` is down
to 0. -/
theorem clearLocals_eq {n : Nat} {m : Memory} (h : ClearOfR13 n m) :
    clearLocals n m = if n = 0 then m else set .r13 0 (pushZeros n m) := by
  induction n generalizing m with
  | zero => rfl
  | succ n ih =>
      have hcount : get .r13 (set .r13 (BitVec.ofNat 16 n) (push 0 m)) = BitVec.ofNat 16 n :=
        get_set_self _ _ _
      have hclear : ClearOfR13 n (set .r13 (BitVec.ofNat 16 n) (push 0 m)) := by
        intro i hi
        rw [get_set_of_ne (by decide)]
        exact h.tail i hi
      rw [clearLocals, push_zero_set_r13 h.head]
      simp only [hcount, if_true]
      rw [ih hclear, if_neg (Nat.succ_ne_zero n), pushZeros]
      split_ifs with hn
      · subst hn
        rfl
      · rw [pushZeros_set_r13 h.tail]
        exact Memory.write_write _ _ _ _

end HackVM.Machine

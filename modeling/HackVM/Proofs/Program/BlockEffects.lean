import HackVM.Proofs.Machine.StackRegion
import HackVM.Proofs.Program.Simulation

/-!
# Exact effects on RAM

What the code of a push, of a pop and of a function writes, for a RAM of which next to nothing is
known. The cell that a pop stores into may be `SP`, `R13`, the base of a segment or the very word
that is moved, and sums of addresses wrap, so the effects are given as writes in their order and not
as a list of changed cells.

* `push_pop_exact`: a push writes behind the top of the stack and then `SP`; a pop writes `R13`,
  then `SP`, then its target. The stack has only to keep off the cells that the code itself works
  with.
* `function_clears_exactly`: the loop of a function comes to its end, and it has then put a zero
  into each local, raised `SP` by their number, left 0 in `R13`, and changed nothing else. Every
  cell behind the loop is read off one equation about repeated pushes (`read_pushZeros`).
-/

namespace HackVM.Lowering

open Hack Source Machine

/-! ## Pushes and pops -/

/-- The address of a static cell of the scope's unit, if names have the given values. -/
def Scope.staticCell (s : Scope) (names : String → Word) (index : Word) : Word :=
  names (Symbol.static (s.unit.getD "") index).text

section exists_block

variable {unit : Option String} {segment : Segment} (hunit : segment = .static → unit ≠ none)
  (index : Word)
include hunit

/-- With a unit for the static segment, every cell has an address. -/
theorem exists_addressBlock : ∃ address, addressBlock unit segment index = .ok address := by
  cases segment with
  | static =>
      cases unit with
      | none => exact absurd rfl (hunit rfl)
      | some name => exact ⟨_, rfl⟩
  | _ => exact ⟨_, rfl⟩

/-- So every push has code. -/
theorem exists_pushBlock : ∃ block, pushBlock unit segment index = .ok block := by
  obtain ⟨address, haddress⟩ := exists_addressBlock hunit index
  rw [pushBlock, haddress]
  exact ⟨_, rfl⟩

/-- And so has every pop that does not go to a constant. -/
theorem exists_popBlock (hcell : segment ≠ .constant) :
    ∃ block, popBlock unit segment index = .ok block := by
  obtain ⟨address, haddress⟩ := exists_addressBlock hunit index
  rw [popBlock, if_neg hcell, haddress]
  exact ⟨_, rfl⟩

end exists_block

/-- **What a push and a pop write.** Let a segment be used in a scope, inside a unit if it is
`static`. Then a push from it has a block, and so has a pop into it unless it is `constant`.
Wherever the block of a push stands in ROM, and whatever RAM and registers hold, as long as `SP`
does not point at itself, the processor runs through it: it writes the value into the cell that `SP`
points at, then one more into `SP`. In the same way, as long as the popped word is neither `SP` nor
`R13`, a pop writes the target's address into `R13`, one less into `SP`, and the popped word into
the target. -/
theorem push_pop_exact {s : Scope} {segment : Segment} (hunit : segment = .static → s.unit ≠ none)
    (index : Word) :
    (∃ block, s.block (.push segment index) = .ok block ∧
      ∀ (rom : Array Operation) (names : String → Word) (pc : Nat) (m : Memory) (a d : Word),
        Placed rom names pc block → get .sp m ≠ Cell.sp.address →
        ∃ a' d', Runs rom (size block) ⟨m, a, d, pc⟩
          ⟨set .sp (get .sp m + 1)
              (m.write (get .sp m) (segmentValue (s.staticCell names) m index segment)),
            a', d', pc + size block⟩) ∧
    (segment ≠ .constant → ∃ block, s.block (.pop segment index) = .ok block ∧
      ∀ (rom : Array Operation) (names : String → Word) (pc : Nat) (m : Memory) (a d : Word),
        Placed rom names pc block →
        get .sp m - 1 ≠ Cell.sp.address → get .sp m - 1 ≠ Cell.r13.address →
        ∃ a' d', Runs rom (size block) ⟨m, a, d, pc⟩
          ⟨(set .sp (get .sp m - 1)
            (set .r13 (segmentCell (s.staticCell names) m index segment) m)).write
              (segmentCell (s.staticCell names) m index segment) (m.read (get .sp m - 1)),
            a', d', pc + size block⟩) := by
  constructor
  · obtain ⟨block, hblock⟩ := exists_pushBlock hunit index
    refine ⟨block, hblock, ?_⟩
    intro rom names pc m a d hplaced hsp
    obtain ⟨hstraight, hram⟩ := execAll_pushBlock names hblock m pc
    rw [← push_eq hsp.symm]
    exact runs_of_straight hplaced hstraight hram a d
  · intro hcell
    obtain ⟨block, hblock⟩ := exists_popBlock hunit index hcell
    refine ⟨block, hblock, ?_⟩
    intro rom names pc m a d hplaced hsp h13
    obtain ⟨hstraight, hram⟩ := execAll_popBlock names hblock m pc
    rw [← popTo_eq hsp.symm h13.symm]
    exact runs_of_straight hplaced hstraight hram a d

/-- A unit whose function has three locals, and moves a number to where `THAT` points. -/
def movingUnit : SourceUnit :=
  .named "Main" "function Main.f 3\npush constant 9\npop that 0\n"

/-- What the unit reads as. -/
def movingCode : UnitCode :=
  ⟨"Main", [.function "Main.f" 3, .push .constant 9, .pop .that 0]⟩

theorem reads_movingUnit : List.Forall₂ Reads [movingUnit] [movingCode] :=
  .cons ⟨rfl, by decide +kernel⟩ .nil

theorem wellNamed_movingCode : WellNamed .withoutBootstrap [movingCode] :=
  ⟨by decide, by decide, by decide, by decide, by decide⟩

/-- The unit is compiled and assembled, and its code stands in ROM. -/
theorem exists_movingProgram :
    ∃ a p names, (compile .withoutBootstrap [movingUnit]).result = .ok a ∧ assemble a.text = .ok p ∧
      ∀ (k : Nat) (site : Site), (runSites .withoutBootstrap [movingCode])[k]? = some site →
        Placed p.rom names (addressOf (runSites .withoutBootstrap [movingCode]) k) site.code := by
  obtain ⟨a, p, hrun, hprogram⟩ :=
    exists_program_of_reads reads_movingUnit wellNamed_movingCode (by decide) (by decide)
  obtain ⟨hplace, rfl⟩ := assembled_of_reads reads_movingUnit wellNamed_movingCode hrun hprogram
  refine ⟨a, _, nameValue (runStatements .withoutBootstrap [movingCode]), hrun, hprogram, ?_⟩
  intro k site hk
  exact placed_site (readable_of_reads reads_movingUnit) wellNamed_movingCode hplace hk

/-- A pop into `SP`: on a RAM of zeros with its stack at 256, 9 is pushed, and since `THAT` holds 0
it is then popped into `SP`. -/
theorem push_pop_exact_into_sp :
    ∃ a p, (compile .withoutBootstrap [movingUnit]).result = .ok a ∧ assemble a.text = .ok p ∧
      ∃ a' d', Runs p.rom 21 ⟨set .sp 256 .zero, 0, 0, 18⟩
        ⟨set .sp 9 (set .sp 256 (set .r13 0 (set .sp 257 ((set .sp 256 .zero).write 256 9)))), a',
          d', 39⟩ := by
  obtain ⟨a, p, names, hrun, hprogram, hplaced⟩ := exists_movingProgram
  have hsp : get .sp (set .sp 256 .zero) = 256 := get_set_self _ _ _
  obtain ⟨block, hblock, hpush⟩ :=
    (@push_pop_exact ⟨some "Main", "Main.f", {}⟩ .constant (by decide) 9).1
  cases hblock
  obtain ⟨a₁, d₁, hpushed⟩ :=
    hpush p.rom names 18 (set .sp 256 .zero) 0 0 (hplaced 1 _ rfl) (by rw [hsp]; decide)
  rw [hsp] at hpushed
  obtain ⟨block, hblock, hpop⟩ :=
    (@push_pop_exact ⟨some "Main", "Main.f", {}⟩ .that (by decide) 0).2 (by decide)
  cases hblock
  have hsp' : get .sp (set .sp 257 ((set .sp 256 .zero).write 256 9)) = 257 := get_set_self _ _ _
  have hthat : get .that (set .sp 257 ((set .sp 256 .zero).write 256 9)) = 0 := by
    rw [get_set_of_ne (by decide), get_write (by decide), get_set_of_ne (by decide)]
    exact Vector.getElem_replicate _
  have htop : (set .sp 257 ((set .sp 256 .zero).write 256 9)).read 256 = 9 := by
    rw [read_set_of_ne (by decide), Memory.read_write, if_pos rfl]
  obtain ⟨a₂, d₂, hpopped⟩ :=
    hpop p.rom names 25 (set .sp 257 ((set .sp 256 .zero).write 256 9)) a₁ d₁
    (hplaced 2 _ rfl) (by rw [hsp']; decide) (by rw [hsp']; decide)
  have htarget : segmentCell (Scope.staticCell ⟨some "Main", "Main.f", {}⟩ names)
      (set .sp 257 ((set .sp 256 .zero).write 256 9)) 0 .that = 0 :=
    congrArg (· + 0) hthat
  have hlast : (257 : Word) - 1 = 256 := rfl
  rw [htarget, hsp', hlast, htop] at hpopped
  exact ⟨a, p, hrun, hprogram, a₂, d₂, hpushed.trans hpopped⟩

end HackVM.Lowering

namespace HackVM.Machine

open Hack Lowering

/-! ## Locals -/

/-- Clearing locals raises the stack by their number. -/
theorem get_sp_pushZeros (n : Nat) (m : Memory) :
    get .sp (pushZeros n m) = get .sp m + BitVec.ofNat 16 n := by
  induction n generalizing m with
  | zero => exact (BitVec.add_zero _).symm
  | succ n ih => rw [pushZeros, ih, get_sp_push_zero, add_one_add_ofNat]

/-- A push of zero leaves all cells alone but `SP` and the one that it points at. -/
theorem read_push_zero {x : Word} (hx : Cell.sp.address ≠ x) (m : Memory) :
    (push 0 m).read x = if get .sp m = x then 0 else m.read x := by
  unfold push
  rw [read_set_of_ne hx, Memory.read_write]

/-- **What repeated pushes of zero leave in a cell.** -/
theorem read_pushZeros {x : Word} (hx : Cell.sp.address ≠ x) (n : Nat) (m : Memory) :
    (pushZeros n m).read x =
      if ∃ i < n, get .sp m + BitVec.ofNat 16 i = x then 0 else m.read x := by
  induction n generalizing m with
  | zero =>
      rw [if_neg]
      · rfl
      · rintro ⟨i, hi, -⟩
        exact absurd hi (Nat.not_lt_zero i)
  | succ n ih =>
      have hrange : (∃ i < n + 1, get .sp m + BitVec.ofNat 16 i = x) ↔
          (∃ i < n, get .sp (push 0 m) + BitVec.ofNat 16 i = x) ∨ get .sp m = x := by
        rw [Nat.exists_lt_succ_left, or_comm, BitVec.add_zero, get_sp_push_zero]
        simp only [add_one_add_ofNat]
      rw [pushZeros, ih, read_push_zero hx]
      simp only [hrange, ite_or]

end HackVM.Machine

namespace HackVM.Lowering

open Hack Source Machine

/-- **What the code of a function does to RAM.** Let the code of a function stand in ROM, with no
more locals than the reader takes, and let neither `SP` nor `R13` be among the cells where its
locals go. Then the processor, whatever its registers hold, comes to the address behind the code.
The locals are 0 there, `SP` is raised by their number, `R13` is 0 if there are any and as it was if
not, and every other cell is as it was. -/
theorem function_clears_exactly {rom : Array Operation} {names : String → Word} {pc : Nat}
    {number : UInt32} {name : String} {locals : Word}
    (hplaced : Placed rom names pc (functionBlock name locals number))
    (hlocals : locals.toNat ≤ Word.maxLoadable) {m : Memory}
    (hclear : ∀ i < locals.toNat, get .sp m + BitVec.ofNat 16 i ≠ Cell.sp.address ∧
      get .sp m + BitVec.ofNat 16 i ≠ Cell.r13.address)
    (a d : Word) :
    ∃ k m' a' d',
      Runs rom k ⟨m, a, d, pc⟩ ⟨m', a', d', pc + size (functionBlock name locals number)⟩ ∧
      (∀ i < locals.toNat, m'.read (get .sp m + BitVec.ofNat 16 i) = 0) ∧
      get .sp m' = get .sp m + locals ∧
      get .r13 m' = (if locals = 0 then get .r13 m else 0) ∧
      ∀ x, x ≠ Cell.sp.address → x ≠ Cell.r13.address →
        (∀ i < locals.toNat, x ≠ get .sp m + BitVec.ofNat 16 i) → m'.read x = m.read x := by
  obtain ⟨k, a', d', hrun⟩ := runs_functionBlock hlocals hplaced m a d
  have hoff : ClearOfR13 locals.toNat m := fun i hi => (hclear i hi).2
  refine ⟨k, _, a', d', hrun, ?_⟩
  rw [clearLocals_eq hoff]
  by_cases hnone : locals = 0
  · subst hnone
    refine ⟨?_, ?_, ?_, ?_⟩
    · intro i hi
      exact absurd hi (Nat.not_lt_zero i)
    · exact (BitVec.add_zero _).symm
    · rfl
    · intro x _ _ _
      rfl
  · have hsome : locals.toNat ≠ 0 := fun h => hnone (BitVec.eq_of_toNat_eq h)
    rw [if_neg hsome, if_neg hnone]
    refine ⟨?_, ?_, ?_, ?_⟩
    · intro i hi
      obtain ⟨hsp, h13⟩ := hclear i hi
      rw [read_set_of_ne h13.symm, read_pushZeros hsp.symm, if_pos ⟨i, hi, rfl⟩]
    · rw [get_set_of_ne (by decide), get_sp_pushZeros, BitVec.ofNat_toNat, BitVec.setWidth_eq]
    · exact get_set_self _ _ _
    · intro x hsp h13 hx
      rw [read_set_of_ne h13.symm, read_pushZeros hsp.symm, if_neg]
      rintro ⟨i, hi, hsame⟩
      exact hx i hi hsame.symm

/-- Locals right above `R13`: with the stack at 14, the three locals of the unit go to 14, 15 and
16. -/
theorem function_clears_exactly_above_r13 :
    ∃ a p, (compile .withoutBootstrap [movingUnit]).result = .ok a ∧ assemble a.text = .ok p ∧
      ∃ k m' a' d', Runs p.rom k ⟨set .sp 14 (Memory.zero.write 15 7), 0, 0, 0⟩ ⟨m', a', d', 18⟩ ∧
        m'.read 15 = 0 ∧ get .sp m' = 17 ∧ get .r13 m' = 0 ∧
        m'.read 17 = (set .sp 14 (Memory.zero.write 15 7)).read 17 := by
  obtain ⟨a, p, names, hrun, hprogram, hplaced⟩ := exists_movingProgram
  have hsp : get .sp (set .sp 14 (Memory.zero.write 15 7)) = 14 := get_set_self _ _ _
  have hfunction : Placed p.rom names 0 (functionBlock "Main.f" 3 0) := hplaced 0 _ rfl
  obtain ⟨k, m', a', d', hruns, hzero, htop, h13, hkept⟩ :=
    function_clears_exactly (m := set .sp 14 (Memory.zero.write 15 7)) hfunction (by decide)
      (by rw [hsp]; decide) 0 0
  rw [hsp] at hzero htop hkept
  exact ⟨a, p, hrun, hprogram, k, m', a', d', hruns, hzero 1 (by decide), htop, h13,
    hkept 17 (by decide) (by decide) (by decide)⟩

end HackVM.Lowering

import HackVM.Proofs.Hack.Execution
import HackVM.Proofs.Machine.StackMachine

/-!
# What blocks do

Main statement (`leads_effect`): wherever the code of a site stands in ROM, running it has the
effect of its command on the stack machine, and control goes where the command goes on. It holds for
every content of RAM: code and command read and write the same cells in the same order.

Straight code is executed symbolically, fragment by fragment. The comparison, the conditional jump
and the loop that clears locals branch inside their block, so each is cut at its branches.
-/

namespace HackVM.Lowering

open Hack Machine

variable {rom : Array Operation} {names : String → Word}

/-! ## Fragments -/

/-- The code that pushes `D`, as one step. -/
theorem execAll_pushD (c : Cpu) :
    execAll names c pushD = ⟨push c.d c.ram, Cell.sp.address, c.d, c.pc + 5⟩ :=
  rfl

/-- The code that pops into `D`, as one step. -/
theorem execAll_popD (c : Cpu) :
    execAll names c popD = ⟨(pop c.ram).2, get .sp (pop c.ram).2, (pop c.ram).1, c.pc + 4⟩ :=
  rfl

/-- The code of an address leaves it in `A`. -/
theorem execAll_addressBlock (names : String → Word) {unit : Option String} {seg : Segment}
    {n : Word} {block : List AsmLine} (h : addressBlock unit seg n = .ok block) (c : Cpu) :
    block.all (fun l => !l.isBranch) = true ∧
      (execAll names c block).ram = c.ram ∧
      (execAll names c block).a =
        segmentCell (fun i => names (Symbol.static (unit.getD "") i).text) c.ram n seg := by
  unfold addressBlock at h
  cases seg with
  | static =>
      cases unit with
      | none => cases h
      | some unit =>
          cases h
          exact ⟨rfl, rfl, rfl⟩
  | _ =>
      cases h
      exact ⟨rfl, rfl, rfl⟩

/-! ## Straight blocks -/

/-- Code without jumps runs from its first address to the one behind it. -/
theorem runs_of_straight {b : Nat} {m m' : Memory} {ls : List AsmLine}
    (hplaced : Placed rom names b ls) (hstraight : ls.all (fun l => !l.isBranch) = true)
    (hram : ∀ a d, (execAll names ⟨m, a, d, b⟩ ls).ram = m') (a d : Word) :
    ∃ a' d', Runs rom (size ls) ⟨m, a, d, b⟩ ⟨m', a', d', b + size ls⟩ := by
  have hrun := runs_straight (c := ⟨m, a, d, b⟩) hplaced hstraight
  have hpc : (execAll names ⟨m, a, d, b⟩ ls).pc = b + size ls := execAll_pc _ ls
  have hram' := hram a d
  cases hc : execAll names ⟨m, a, d, b⟩ ls with
  | mk ram a₁ d₁ pc =>
      rw [hc] at hrun hpc hram'
      subst hram' hpc
      exact ⟨a₁, d₁, hrun⟩

/-- Code without jumps comes before what it leads to. -/
theorem leadsIn_of_straight {b pc' n : Nat} {m m' m'' : Memory} {ls : List AsmLine}
    (hplaced : Placed rom names b ls) (hstraight : ls.all (fun l => !l.isBranch) = true)
    (hram : ∀ a d, (execAll names ⟨m, a, d, b⟩ ls).ram = m')
    (hrest : LeadsIn rom n m' (b + size ls) m'' pc') : LeadsIn rom (size ls + n) m b m'' pc' := by
  intro a d
  obtain ⟨a₁, d₁, hrun⟩ := runs_of_straight hplaced hstraight hram a d
  obtain ⟨a', d', hrest'⟩ := hrest a₁ d₁
  exact ⟨a', d', hrun.executes hrest'⟩

/-- A block without jumps leads from its first address to the one behind it. -/
theorem leads_of_straight {b : Nat} {m m' : Memory} {ls : List AsmLine}
    (hplaced : Placed rom names b ls) (hstraight : ls.all (fun l => !l.isBranch) = true)
    (hram : ∀ a d, (execAll names ⟨m, a, d, b⟩ ls).ram = m') : Leads rom m b m' (b + size ls) :=
  (leadsIn_of_straight hplaced hstraight hram (LeadsIn.refl rom m' _)).leads

/-- The bootstrap code sets the stack to its base. -/
theorem leads_stackBlock {b : Nat} {base : Word} (m : Memory)
    (hplaced : Placed rom names b (stackBlock base)) :
    Leads rom m b (set .sp base m) (b + size (stackBlock base)) :=
  leads_of_straight hplaced rfl fun _ _ => rfl

/-- The code of a push has no jumps, and pushes. -/
theorem execAll_pushBlock (names : String → Word) {unit : Option String} {seg : Segment} {n : Word}
    {block : List AsmLine} (h : pushBlock unit seg n = .ok block) (m : Memory) (b : Nat) :
    block.all (fun l => !l.isBranch) = true ∧
      ∀ a d, (execAll names ⟨m, a, d, b⟩ block).ram =
        push (segmentValue (fun i => names (Symbol.static (unit.getD "") i).text) m n seg) m := by
  obtain ⟨address, haddress, rfl⟩ := pushBlock_eq_ok h
  constructor
  · rw [List.all_append, List.all_append, (execAll_addressBlock names haddress ⟨m, 0, 0, b⟩).1]
    rfl
  · intro a d
    obtain ⟨-, hram, ha⟩ := execAll_addressBlock names haddress ⟨m, a, d, b⟩
    have hcopy : ∀ (c : Cpu) (r : Register), execAll names c [copyTo .d r] =
        { c with d := (Computation.copy r).eval c.a c.d (c.ram.read c.a), pc := c.pc + 1 } :=
      fun c r => rfl
    rw [execAll_append, execAll_append, execAll_pushD, hcopy]
    simp only [hram, ha]
    cases seg <;> rfl

/-- **Pushing.** The code of a push puts the value of the segment's cell on the stack. -/
theorem leads_pushBlock {unit : Option String} {seg : Segment} {n : Word} {block : List AsmLine}
    {b : Nat} (m : Memory) (h : pushBlock unit seg n = .ok block)
    (hplaced : Placed rom names b block) :
    Leads rom m b
      (push (segmentValue (fun i => names (Symbol.static (unit.getD "") i).text) m n seg) m)
      (b + size block) := by
  obtain ⟨hstraight, hram⟩ := execAll_pushBlock names h m b
  exact leads_of_straight hplaced hstraight hram

/-- The code of a pop has no jumps, and pops. -/
theorem execAll_popBlock (names : String → Word) {unit : Option String} {seg : Segment} {n : Word}
    {block : List AsmLine} (h : popBlock unit seg n = .ok block) (m : Memory) (b : Nat) :
    block.all (fun l => !l.isBranch) = true ∧
      ∀ a d, (execAll names ⟨m, a, d, b⟩ block).ram =
        popTo (segmentCell (fun i => names (Symbol.static (unit.getD "") i).text) m n seg) m := by
  obtain ⟨address, haddress, rfl⟩ := popBlock_eq_ok h
  constructor
  · rw [List.all_append, List.all_append, List.all_append,
      (execAll_addressBlock names haddress ⟨m, 0, 0, b⟩).1]
    rfl
  · intro a d
    obtain ⟨-, hram, ha⟩ := execAll_addressBlock names haddress ⟨m, a, d, b⟩
    have hpark : ∀ c : Cpu, execAll names c [copyTo .d .a, loadCell .r13, copyTo .m .d] =
        ⟨set .r13 c.a c.ram, Cell.r13.address, c.a, c.pc + 3⟩ :=
      fun c => rfl
    rw [execAll_append, execAll_append, execAll_append, hpark, execAll_popD, hram, ha]
    rfl

/-- **Popping.** The code of a pop takes the topmost value into the segment's cell. -/
theorem leads_popBlock {unit : Option String} {seg : Segment} {n : Word} {block : List AsmLine}
    {b : Nat} (m : Memory) (h : popBlock unit seg n = .ok block)
    (hplaced : Placed rom names b block) :
    Leads rom m b
      (popTo (segmentCell (fun i => names (Symbol.static (unit.getD "") i).text) m n seg) m)
      (b + size block) := by
  obtain ⟨hstraight, hram⟩ := execAll_popBlock names h m b
  exact leads_of_straight hplaced hstraight hram

/-- An operator that is no comparison. -/
theorem leads_operatorBlock {op : Operator} {number : UInt32} {b : Nat} (m : Memory)
    (hshape : ∀ jump, shapeOf op ≠ .compare jump)
    (hplaced : Placed rom names b (operatorBlock op number)) :
    Leads rom m b (operate op m) (b + size (operatorBlock op number)) := by
  -- the processor adds `D` and `M`, that is upper and lower operand, the machine lower and upper
  have hadd : operate .add = binary fun x y => y + x :=
    congrArg binary (funext fun x => funext fun y => BitVec.add_comm x y)
  have hand : operate .and = binary fun x y => y &&& x :=
    congrArg binary (funext fun x => funext fun y => BitVec.and_comm x y)
  have hor : operate .or = binary fun x y => y ||| x :=
    congrArg binary (funext fun x => funext fun y => BitVec.or_comm x y)
  cases op with
  | add =>
      rw [hadd]
      exact leads_of_straight hplaced rfl fun _ _ => rfl
  | and =>
      rw [hand]
      exact leads_of_straight hplaced rfl fun _ _ => rfl
  | or =>
      rw [hor]
      exact leads_of_straight hplaced rfl fun _ _ => rfl
  | sub => exact leads_of_straight hplaced rfl fun _ _ => rfl
  | neg => exact leads_of_straight hplaced rfl fun _ _ => rfl
  | not => exact leads_of_straight hplaced rfl fun _ _ => rfl
  | eq => exact absurd rfl (hshape .jeq)
  | gt => exact absurd rfl (hshape .jgt)
  | lt => exact absurd rfl (hshape .jlt)

/-! ## Blocks with branches -/

/-- A jump to a symbol that is no cell. -/
theorem executes_jumpTo {c : Cpu} {s : Symbol} (hs : (Operand.symbol s).value names = names s.text)
    (hplaced : Placed rom names c.pc (jumpTo s)) :
    Executes rom (size (jumpTo s)) c ⟨c.ram, names s.text, c.d, (names s.text).toNat⟩ := by
  obtain ⟨hload, hbranch, -⟩ := hplaced
  rw [hs] at hload
  refine Executes.of_next hload rfl ?_
  exact step_of_jumpTo (c := ⟨c.ram, names s.text, c.d, c.pc + 1⟩) hbranch rfl

/-- A jump reaches the address of its symbol, with only `A` changed on the way. -/
theorem reaches_jumpTo {c : Cpu} {s : Symbol} (hs : (Operand.symbol s).value names = names s.text)
    (hplaced : Placed rom names c.pc (jumpTo s)) :
    Reaches rom c ⟨c.ram, names s.text, c.d, (names s.text).toNat⟩ :=
  (executes_jumpTo hs hplaced).reaches

/-- A jump to anywhere but its own first line does not park the machine. -/
theorem runs_jumpTo {c : Cpu} {s : Symbol} (hs : (Operand.symbol s).value names = names s.text)
    (hplaced : Placed rom names c.pc (jumpTo s)) (haway : (names s.text).toNat ≠ c.pc) :
    Runs rom (size (jumpTo s)) c ⟨c.ram, names s.text, c.d, (names s.text).toNat⟩ := by
  obtain ⟨hload, hbranch⟩ := hplaced
  rw [hs] at hload
  apply Runs.of_next hload rfl
  exact runs_taken (c := ⟨c.ram, names s.text, c.d, c.pc + 1⟩) hbranch rfl
    (fun h => haway (Nat.succ.inj h))

/-- A jump leads to the address of its symbol in as many operations as it has. -/
theorem leadsIn_jumpTo {b : Nat} {s : Symbol} (m : Memory)
    (hs : (Operand.symbol s).value names = names s.text) (hplaced : Placed rom names b (jumpTo s)) :
    LeadsIn rom (size (jumpTo s)) m b m (names s.text).toNat :=
  fun a d => ⟨_, _, executes_jumpTo (c := ⟨m, a, d, b⟩) hs hplaced⟩

/-- A comparison, by whether its jump is taken on the difference. -/
theorem leads_compareBlock {jump : Jump} {number : UInt32} {b : Nat} (m : Memory)
    (hplaced : Placed rom names b (compareBlock jump number)) :
    Leads rom m b (binary (fun x y => truth (jump.taken (x - y))) m)
      (b + size (compareBlock jump number)) := by
  have hsplit : compareBlock jump number =
      (twoOperands ++ [AsmLine.assign .d (.minusD .m),
        AsmLine.load (.symbol (.generated .holds number))]) ++
      ([AsmLine.branch (.copy .d) jump] ++
      ([loadCell .sp, AsmLine.assign .a (.pred .m), AsmLine.assign .m .zero] ++
      (jumpTo (.generated .compared number) ++
      ([AsmLine.define (.generated .holds number), loadCell .sp, AsmLine.assign .a (.pred .m),
        AsmLine.assign .m .minusOne] ++
      [AsmLine.define (.generated .compared number)])))) := rfl
  rw [hsplit] at hplaced
  obtain ⟨hhead, hplaced⟩ := placed_append.mp hplaced
  obtain ⟨hbranch, hplaced⟩ := placed_append.mp hplaced
  obtain ⟨hfalse, hplaced⟩ := placed_append.mp hplaced
  obtain ⟨hjump, hplaced⟩ := placed_append.mp hplaced
  obtain ⟨htrue, hend, -⟩ := placed_append.mp hplaced
  have hholds : (names (Symbol.generated .holds number).text).toNat = b + 13 := htrue.1
  have hcompared : (names (Symbol.generated .compared number).text).toNat = b + 16 := hend
  intro a d
  let low := get .sp (pop m).2 - 1
  let difference := (pop m).2.read low - (pop m).1
  have hstart : Reaches rom ⟨m, a, d, b⟩
      ⟨(pop m).2, names (Symbol.generated .holds number).text, difference, b + 7⟩ :=
    reaches_execAll (c := ⟨m, a, d, b⟩) hhead rfl
  by_cases htaken : jump.taken difference = true
  · -- the code behind the first label writes -1
    have hresult : binary (fun x y => truth (jump.taken (x - y))) m = (pop m).2.write low (-1) :=
      congrArg ((pop m).2.write low) (if_pos htaken)
    have hbranched := reaches_taken
      (c := ⟨(pop m).2, names (Symbol.generated .holds number).text, difference, b + 7⟩)
      hbranch htaken
    have hwrite : Reaches rom
        ⟨(pop m).2, names (Symbol.generated .holds number).text, difference, b + 13⟩
        ⟨(pop m).2.write low (-1), low, difference, b + 16⟩ :=
      reaches_execAll (c := ⟨_, _, _, b + 13⟩) htrue rfl
    simp only [hholds] at hbranched
    rw [hresult]
    exact ⟨_, _, hstart.trans (hbranched.trans hwrite)⟩
  · -- the code behind the branch writes 0 and jumps to the end
    rw [Bool.not_eq_true] at htaken
    have hresult : binary (fun x y => truth (jump.taken (x - y))) m = (pop m).2.write low 0 :=
      congrArg ((pop m).2.write low) (congrArg truth htaken)
    have hbranched := (runs_fallthrough
      (c := ⟨(pop m).2, names (Symbol.generated .holds number).text, difference, b + 7⟩)
      hbranch htaken).reaches
    have hwrite : Reaches rom
        ⟨(pop m).2, names (Symbol.generated .holds number).text, difference, b + 8⟩
        ⟨(pop m).2.write low 0, low, difference, b + 11⟩ :=
      reaches_execAll (c := ⟨_, _, _, b + 8⟩) hfalse rfl
    have hjumped := reaches_jumpTo
      (c := ⟨(pop m).2.write low 0, low, difference, b + 11⟩) rfl hjump
    rw [hcompared] at hjumped
    rw [hresult]
    exact ⟨_, _, hstart.trans (hbranched.trans (hwrite.trans hjumped))⟩

/-- The parts of a conditional jump: up to its branch, the branch, the jump, and the label behind
it. -/
theorem placed_ifGotoBlock {s : Symbol} {number : UInt32} {b : Nat}
    (hplaced : Placed rom names b (ifGotoBlock s number)) :
    Placed rom names b (popD ++ [AsmLine.load (.symbol (.generated .ifFalse number))]) ∧
      Placed rom names (b + 5) [.branch (.copy .d) .jeq] ∧ Placed rom names (b + 6) (jumpTo s) ∧
      (names (Symbol.generated .ifFalse number).text).toNat = b + 8 := by
  have hsplit : ifGotoBlock s number =
      (popD ++ [AsmLine.load (.symbol (.generated .ifFalse number))]) ++
      ([AsmLine.branch (.copy .d) .jeq] ++
        (jumpTo s ++ [AsmLine.define (.generated .ifFalse number)])) := rfl
  rw [hsplit] at hplaced
  obtain ⟨hhead, hplaced⟩ := placed_append.mp hplaced
  obtain ⟨hbranch, hplaced⟩ := placed_append.mp hplaced
  obtain ⟨hjump, hend, -⟩ := placed_append.mp hplaced
  exact ⟨hhead, hbranch, hjump, hend⟩

/-- A conditional jump that is taken runs through its whole block. -/
theorem leadsIn_ifGotoBlock {s : Symbol} {number : UInt32} {b : Nat} {m : Memory}
    (htop : (pop m).1 ≠ 0) (hs : (Operand.symbol s).value names = names s.text)
    (hplaced : Placed rom names b (ifGotoBlock s number)) :
    LeadsIn rom (size (ifGotoBlock s number)) m b (pop m).2 (names s.text).toNat := by
  obtain ⟨hhead, hbranch, hjump, -⟩ := placed_ifGotoBlock hplaced
  have htaken : Jump.jeq.taken (pop m).1 = false := by
    apply decide_eq_false
    intro h
    exact htop (BitVec.eq_of_toInt_eq h)
  intro a d
  have hstart := runs_straight (c := ⟨m, a, d, b⟩) hhead rfl
  have hfall := runs_fallthrough
    (c := ⟨(pop m).2, names (Symbol.generated .ifFalse number).text, (pop m).1, b + 5⟩)
    hbranch htaken
  have hjumped := executes_jumpTo
    (c := ⟨(pop m).2, names (Symbol.generated .ifFalse number).text, (pop m).1, b + 6⟩) hs hjump
  exact ⟨_, _, hstart.executes (hfall.executes hjumped)⟩

/-- A conditional jump. -/
theorem leads_ifGotoBlock {s : Symbol} {number : UInt32} {b : Nat} (m : Memory)
    (hs : (Operand.symbol s).value names = names s.text)
    (hplaced : Placed rom names b (ifGotoBlock s number)) :
    Leads rom m b (pop m).2
      (if (pop m).1 = 0 then b + size (ifGotoBlock s number) else (names s.text).toNat) := by
  split_ifs with hzero
  · obtain ⟨hhead, hbranch, -, hfalse⟩ := placed_ifGotoBlock hplaced
    have hsize : size (ifGotoBlock s number) = 8 := rfl
    have htaken : Jump.jeq.taken (pop m).1 = true := by
      rw [hzero]
      rfl
    intro a d
    have hstart : Reaches rom ⟨m, a, d, b⟩
        ⟨(pop m).2, names (Symbol.generated .ifFalse number).text, (pop m).1, b + 5⟩ :=
      reaches_execAll (c := ⟨m, a, d, b⟩) hhead rfl
    have hbranched := reaches_taken
      (c := ⟨(pop m).2, names (Symbol.generated .ifFalse number).text, (pop m).1, b + 5⟩)
      hbranch htaken
    simp only [hfalse] at hbranched
    rw [hsize]
    exact ⟨_, _, hstart.trans hbranched⟩
  · exact (leadsIn_ifGotoBlock hzero hs hplaced).leads

/-- A call runs through its whole block and saves the address behind it. -/
theorem leadsIn_callBlock {name : String} {args : Word} {number : UInt32} {b : Nat} (m : Memory)
    (hplaced : Placed rom names b (callBlock name args number)) :
    LeadsIn rom (size (callBlock name args number)) m b
      (enterFrame (BitVec.ofNat 16 (b + size (callBlock name args number))) args m)
      (names name).toNat := by
  have hsplit : callBlock name args number =
      ([AsmLine.load (.symbol (.generated .returnSite number)), copyTo .d .a] ++ pushD ++
        pushCell .lcl ++ pushCell .arg ++ pushCell .this ++ pushCell .that ++
        [loadCell .sp, copyTo .d .m, loadCell .lcl, copyTo .m .d,
          loadNumber args, AsmLine.assign .d (.dMinus .a), loadNumber frameWords,
          AsmLine.assign .d (.dMinus .a), loadCell .arg, copyTo .m .d]) ++
      (jumpTo (.function name) ++ [AsmLine.define (.generated .returnSite number)]) := rfl
  have hsize : size (callBlock name args number) = 47 := rfl
  rw [hsplit] at hplaced
  obtain ⟨hhead, hplaced⟩ := placed_append.mp hplaced
  obtain ⟨hjump, hend, -⟩ := placed_append.mp hplaced
  have hreturn : (names (Symbol.generated .returnSite number).text).toNat = b + 47 := hend
  have haddress : BitVec.ofNat 16 (b + size (callBlock name args number)) =
      names (Symbol.generated .returnSite number).text := by
    rw [hsize, ← hreturn, BitVec.ofNat_toNat, BitVec.setWidth_eq]
  rw [haddress]
  have hjumped :=
    leadsIn_jumpTo (enterFrame (names (Symbol.generated .returnSite number).text) args m)
    rfl hjump
  have hcall := leadsIn_of_straight (m := m) hhead rfl (fun _ _ => rfl) hjumped
  exact hcall

/-- A jump to where a cell points. -/
theorem leads_jumpThrough {r : Cell} {b : Nat} (m : Memory)
    (hplaced : Placed rom names b [loadCell r, copyTo .a .m, .branch .zero .jmp]) :
    Leads rom m b m (get r m).toNat := by
  have hsplit : [loadCell r, copyTo .a .m, .branch .zero .jmp] =
      [loadCell r, copyTo .a .m] ++ [AsmLine.branch .zero .jmp] := rfl
  rw [hsplit] at hplaced
  obtain ⟨hload, hbranch⟩ := placed_append.mp hplaced
  intro a d
  have hloaded : Reaches rom ⟨m, a, d, b⟩ ⟨m, get r m, d, b + 2⟩ :=
    reaches_execAll (c := ⟨m, a, d, b⟩) hload rfl
  have hjumped := reaches_taken (c := ⟨m, get r m, d, b + 2⟩) hbranch rfl
  exact ⟨_, _, hloaded.trans hjumped⟩

/-- A return goes back to the address that it found below the frame. -/
theorem leads_returnBlock {b : Nat} (m : Memory) (hplaced : Placed rom names b returnBlock) :
    Leads rom m b (leaveFrame m).2 (leaveFrame m).1.toNat := by
  have hsplit : returnBlock =
      ([loadCell .lcl, copyTo .d .m, loadCell .r13, copyTo .m .d,
          loadNumber frameWords, AsmLine.assign .a (.dMinus .a), copyTo .d .m, loadCell .r14,
          copyTo .m .d] ++
        popD ++
        [loadCell .arg, copyTo .a .m, copyTo .m .d, AsmLine.assign .d (.succ .a), loadCell .sp,
          copyTo .m .d] ++
        restoreCell .that 1 ++ restoreCell .this 2 ++ restoreCell .arg 3 ++ restoreCell .lcl 4) ++
      [loadCell .r14, copyTo .a .m, AsmLine.branch .zero .jmp] := rfl
  rw [hsplit] at hplaced
  obtain ⟨hhead, hjump⟩ := placed_append.mp hplaced
  exact (leads_of_straight hhead rfl fun _ _ => rfl).trans (leads_jumpThrough _ hjump)

/-! ## The loop that clears locals -/

/-- After a round of the loop `R13` holds the count that was put there, unless the stack ran over
it. -/
theorem get_r13_push_zero (m : Memory) (v : Word) :
    get .r13 (push 0 (set .r13 v m)) = v ∨ get .r13 (push 0 (set .r13 v m)) = 0 := by
  have hcounted : get .r13 (push 0 (set .r13 v m)) =
      get .r13 ((set .r13 v m).write (get .sp (set .r13 v m)) 0) := by
    unfold push
    exact get_set_of_ne (by decide) _ _
  rw [hcounted, Machine.get, Memory.read_write]
  split_ifs
  · right
    rfl
  · left
    exact get_set_self _ _ _

/-- The loop is left when nothing is to be cleared any more. -/
theorem taken_jle_zero : Jump.jle.taken 0 = true :=
  rfl

/-- The loop goes on while something is left to be cleared. -/
theorem taken_jle_ofNat {n : Nat} (h : n + 1 ≤ Word.maxLoadable) :
    Jump.jle.taken (BitVec.ofNat 16 (n + 1)) = false := by
  have hmax : Word.maxLoadable = 32767 := rfl
  have hint : (BitVec.ofNat 16 (n + 1)).toInt = n + 1 := by
    rw [BitVec.toInt_eq_toNat_of_lt, BitVec.toNat_ofNat, Nat.mod_eq_of_lt (by omega)]
    · rfl
    · rw [BitVec.toNat_ofNat, Nat.mod_eq_of_lt (by omega)]
      omega
  refine decide_eq_false ?_
  rw [hint]
  omega

/-- The loop of a function, with the number of rounds to come in `D`. -/
def localsLoop (number : UInt32) : List AsmLine :=
  [AsmLine.define (.generated .loopStart number),
    AsmLine.load (.symbol (.generated .loopEnd number))] ++
  ([AsmLine.branch (.copy .d) .jle] ++
  (([AsmLine.assign .d (.pred .d), loadCell .r13, copyTo .m .d, loadNumber 0, copyTo .d .a] ++
    pushD ++ [loadCell .r13, copyTo .d .m]) ++
  (jumpTo (.generated .loopStart number) ++ [AsmLine.define (.generated .loopEnd number)])))

section loop

variable {number : UInt32} {b : Nat} (hplaced : Placed rom names b (localsLoop number))
include hplaced

/-- The label at the start of the loop has the address of the loop. -/
theorem loopStart_eq : (names (Symbol.generated .loopStart number).text).toNat = b :=
  (placed_append.mp hplaced).1.1

/-- The label at the end of the loop has the address behind the loop. -/
theorem loopEnd_eq : (names (Symbol.generated .loopEnd number).text).toNat = b + 16 := by
  obtain ⟨-, hplaced⟩ := placed_append.mp hplaced
  obtain ⟨-, hplaced⟩ := placed_append.mp hplaced
  obtain ⟨-, hplaced⟩ := placed_append.mp hplaced
  obtain ⟨-, hend, -⟩ := placed_append.mp hplaced
  exact hend

/-- The head of the loop loads its end. -/
theorem runs_loopHead (m : Memory) (a d : Word) :
    Runs rom 1 ⟨m, a, d, b⟩ ⟨m, names (Symbol.generated .loopEnd number).text, d, b + 1⟩ :=
  runs_straight (c := ⟨m, a, d, b⟩) (placed_append.mp hplaced).1 rfl

/-- With no round to come the loop ends. -/
theorem runs_loopExit (m : Memory) (a : Word) :
    Runs rom 2 ⟨m, a, 0, b⟩ ⟨m, names (Symbol.generated .loopEnd number).text, 0, b + 16⟩ := by
  obtain ⟨-, hrest⟩ := placed_append.mp hplaced
  have hend := loopEnd_eq hplaced
  have htaken := runs_taken
    (c := ⟨m, names (Symbol.generated .loopEnd number).text, 0, b + 1⟩) (placed_append.mp hrest).1
    taken_jle_zero (by simp only [hend]; omega)
  simp only [hend] at htaken
  exact (runs_loopHead hplaced m a 0).trans htaken

/-- A round pushes a zero and comes back to the head with the count that is in `R13`. -/
theorem runs_loopRound {d : Word} (m : Memory) (a : Word) (h : Jump.jle.taken d = false) :
    Runs rom 16 ⟨m, a, d, b⟩
      ⟨push 0 (set .r13 (d - 1) m), names (Symbol.generated .loopStart number).text,
        get .r13 (push 0 (set .r13 (d - 1) m)), b⟩ := by
  obtain ⟨-, hrest⟩ := placed_append.mp hplaced
  obtain ⟨hbranch, hrest⟩ := placed_append.mp hrest
  obtain ⟨hbody, hrest⟩ := placed_append.mp hrest
  obtain ⟨hjump, -⟩ := placed_append.mp hrest
  have hstart := loopStart_eq hplaced
  have hfall := runs_fallthrough
    (c := ⟨m, names (Symbol.generated .loopEnd number).text, d, b + 1⟩) hbranch h
  have hpushed : Runs rom 12 ⟨m, names (Symbol.generated .loopEnd number).text, d, b + 2⟩
      ⟨push 0 (set .r13 (d - 1) m), Cell.r13.address,
        get .r13 (push 0 (set .r13 (d - 1) m)), b + 14⟩ :=
    runs_straight (c := ⟨_, _, _, b + 2⟩) hbody rfl
  have hjumped := runs_jumpTo (c := ⟨push 0 (set .r13 (d - 1) m), Cell.r13.address,
    get .r13 (push 0 (set .r13 (d - 1) m)), b + 14⟩) rfl hjump (by simp only [hstart]; omega)
  rw [hstart] at hjumped
  exact (runs_loopHead hplaced m a d).trans (hfall.trans (hpushed.trans hjumped))

/-- The loop clears the locals. -/
theorem runs_localsLoop {n : Nat} (hn : n ≤ Word.maxLoadable) (m : Memory) (a : Word) :
    ∃ k a' d', Runs rom k ⟨m, a, BitVec.ofNat 16 n, b⟩ ⟨clearLocals n m, a', d', b + 16⟩ := by
  induction n generalizing m a with
  | zero => exact ⟨_, _, _, runs_loopExit hplaced m a⟩
  | succ n ih =>
      have hpred : BitVec.ofNat 16 (n + 1) - 1 = BitVec.ofNat 16 n := by
        rw [BitVec.ofNat_add]
        exact BitVec.add_sub_cancel _ _
      have hround := runs_loopRound hplaced m a (taken_jle_ofNat hn)
      rw [hpred] at hround
      rw [clearLocals]
      split_ifs with hcount
      · rw [hcount] at hround
        obtain ⟨k, a', d', hrest⟩ := ih (by omega) (push 0 (set .r13 (BitVec.ofNat 16 n) m))
          (names (Symbol.generated .loopStart number).text)
        exact ⟨_, a', d', hround.trans hrest⟩
      · -- the stack ran over the count, and what it left there is a zero
        have hzero := (get_r13_push_zero m (BitVec.ofNat 16 n)).resolve_left hcount
        rw [hzero] at hround
        exact ⟨_, _, _, hround.trans (runs_loopExit hplaced _ _)⟩

end loop

/-- The code of a function clears its locals and comes to its end. -/
theorem runs_functionBlock {name : String} {locals : Word} {number : UInt32} {b : Nat}
    (hlocals : locals.toNat ≤ Word.maxLoadable)
    (hplaced : Placed rom names b (functionBlock name locals number)) (m : Memory) (a d : Word) :
    ∃ k a' d', Runs rom k ⟨m, a, d, b⟩
      ⟨clearLocals locals.toNat m, a', d', b + size (functionBlock name locals number)⟩ := by
  have hsplit : functionBlock name locals number =
      [AsmLine.define (.function name), loadNumber locals, copyTo .d .a] ++ localsLoop number := rfl
  rw [hsplit] at hplaced
  obtain ⟨hhead, hloop⟩ := placed_append.mp hplaced
  have hstart : Runs rom 2 ⟨m, a, d, b⟩ ⟨m, locals, locals, b + 2⟩ :=
    runs_straight (c := ⟨m, a, d, b⟩) hhead rfl
  obtain ⟨k, a', d', hcleared⟩ := runs_localsLoop (b := b + 2) hloop hlocals m locals
  rw [BitVec.ofNat_toNat, BitVec.setWidth_eq] at hcleared
  exact ⟨2 + k, a', d', hstart.trans hcleared⟩

/-- **Entering a function.** The code of a function clears its locals on the stack. -/
theorem leads_functionBlock {name : String} {locals : Word} {number : UInt32} {b : Nat} (m : Memory)
    (hlocals : locals.toNat ≤ Word.maxLoadable)
    (hplaced : Placed rom names b (functionBlock name locals number)) :
    Leads rom m b (clearLocals locals.toNat m) (b + size (functionBlock name locals number)) := by
  intro a d
  obtain ⟨k, a', d', hrun⟩ := runs_functionBlock hlocals hplaced m a d
  exact ⟨a', d', hrun.reaches⟩

/-! ## Sites -/

/-- The command has code, and no more locals than the loop can count. -/
structure Site.HasCode (s : Site) : Prop where
  block : ∀ i, s.command = .perform i → ∃ block, s.scope.block i = .ok block
  locals : ∀ name n, s.command = .perform (.function name n) → n.toNat ≤ Word.maxLoadable

/-- The address at which a command goes on, if names have the given values. -/
def destination (names : String → Word) (behind : Nat) : Control → Nat
  | .next => behind
  | .goTo name => (names name).toNat
  | .back address => address.toNat

/-- A comparison is decided by its jump. -/
theorem operate_eq_of_compare {op : Operator} {jump : Jump} (h : shapeOf op = .compare jump) :
    operate op = binary fun x y => truth (jump.taken (x - y)) := by
  cases op with
  | eq | gt | lt =>
      cases h
      rfl
  | _ => cases h

/-- **The code of a site has the effect of its command**, for every content of RAM. -/
theorem leads_effect {site : Site} {b : Nat} (m : Memory) (hcode : site.HasCode)
    (hplaced : Placed rom names b site.code) :
    Leads rom m b
      (effect (fun u i => names (Symbol.static u i).text)
        (BitVec.ofNat 16 (b + size site.code)) site m).1
      (destination names (b + size site.code)
        (effect (fun u i => names (Symbol.static u i).text)
          (BitVec.ofNat 16 (b + size site.code)) site m).2) := by
  obtain ⟨scope, command, comment⟩ := site
  cases command with
  | setStack base => exact leads_stackBlock m hplaced
  | perform i =>
      obtain ⟨block, hblock⟩ := hcode.block i rfl
      rw [Site.code_of_block hblock] at hplaced ⊢
      cases i with
      | arithmetic op =>
          cases hblock
          by_cases hshape : ∃ jump, shapeOf op = .compare jump
          · obtain ⟨jump, hjump⟩ := hshape
            have hcompare : operatorBlock op scope.labels.comparison =
                compareBlock jump scope.labels.comparison := by
              rw [operatorBlock, hjump]
            rw [hcompare] at hplaced ⊢
            have hleads := leads_compareBlock m hplaced
            rw [← operate_eq_of_compare hjump] at hleads
            exact hleads
          · exact leads_operatorBlock m (fun jump h => hshape ⟨jump, h⟩) hplaced
      | push seg n => exact leads_pushBlock m hblock hplaced
      | pop seg n => exact leads_popBlock m hblock hplaced
      | label name =>
          cases hblock
          exact Leads.refl rom m b
      | goto name =>
          cases hblock
          exact (leadsIn_jumpTo m rfl hplaced).leads
      | ifGoto name =>
          cases hblock
          have hleads := leads_ifGotoBlock m rfl hplaced
          have hcontrol : (if (pop m).1 = 0 then b + size (ifGotoBlock (.scoped scope.function name)
              scope.labels.ifFalse) else (names (Symbol.scoped scope.function name).text).toNat) =
              destination names
                (b + size (ifGotoBlock (.scoped scope.function name) scope.labels.ifFalse))
                (if (pop m).1 = 0 then .next
                else .goTo (Symbol.scoped scope.function name).text) := by
            split_ifs <;> rfl
          rw [hcontrol] at hleads
          exact hleads
      | function name n =>
          cases hblock
          exact leads_functionBlock m (hcode.locals name n rfl) hplaced
      | call name n =>
          cases hblock
          exact (leadsIn_callBlock m hplaced).leads
      | ret =>
          cases hblock
          exact leads_returnBlock m hplaced

end HackVM.Lowering

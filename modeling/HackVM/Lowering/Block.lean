import HackVM.Error
import HackVM.Instruction
import HackVM.Lowering.AsmLine

/-!
# The code of an instruction

Each instruction becomes one block of assembly (`Scope.block`). A block depends on three things
only: the numbers that its labels get, the unit it stands in (for `static`), and the function it
stands in (for the labels of the source). Two requests have no block: a pop into `constant`, and a
static cell outside any unit.

The stack grows upwards and `SP` points behind its top. True is -1, false is 0.
-/

namespace HackVM.Lowering

open Hack

/-! ### How operators and segments use the machine -/

/-- How an operator uses the stack. -/
inductive Shape where
  /-- Two operands give one value; `D` holds the upper operand, `M` the lower one. -/
  | binary (value : Computation)
  /-- One operand, in `M`, changes in place. -/
  | unary (value : Computation)
  /-- Two operands give true or false, by the sign of their difference. -/
  | compare (jump : Jump)
  deriving DecidableEq, Repr

/-- The shape of each operator. -/
def shapeOf : Operator → Shape
  | .add => .binary (.add .m)
  | .sub => .binary (.minusD .m)
  | .and => .binary (.and .m)
  | .or => .binary (.or .m)
  | .neg => .unary (.neg .m)
  | .not => .unary (.not .m)
  | .eq => .compare .jeq
  | .gt => .compare .jgt
  | .lt => .compare .jlt

/-- How a segment turns an index into an address. -/
inductive Addressing where
  /-- No address: the index is the value. -/
  | constant
  /-- The index counts from where the cell points. -/
  | indirect (base : Cell)
  /-- The index counts from the cell itself. -/
  | fixed (base : Cell)
  /-- Each index of each unit is a symbol of its own. -/
  | static
  deriving DecidableEq, Repr

/-- The addressing of each segment. -/
def addressingOf : Segment → Addressing
  | .constant => .constant
  | .local => .indirect .lcl
  | .argument => .indirect .arg
  | .this => .indirect .this
  | .that => .indirect .that
  | .pointer => .fixed .this
  | .temp => .fixed .r5
  | .static => .static

/-! ### Fragments -/

/-- Points `A` at a cell. -/
def loadCell (c : Cell) : AsmLine :=
  .load (.symbol (.cell c))

/-- Sets `A` to a number. -/
def loadNumber (n : Word) : AsmLine :=
  .load (.number n)

/-- Copies one register to another. -/
def copyTo (target source : Register) : AsmLine :=
  .assign target (.copy source)

/-- Pushes `D`. -/
def pushD : List AsmLine :=
  [loadCell .sp, copyTo .a .m, copyTo .m .d, loadCell .sp, .assign .m (.succ .m)]

/-- Pops into `D`. -/
def popD : List AsmLine :=
  [loadCell .sp, .assign .m (.pred .m), copyTo .a .m, copyTo .d .m]

/-- Pops the upper operand into `D` and points `A` at the lower one. -/
def twoOperands : List AsmLine :=
  popD ++ [.assign .a (.pred .a)]

/-- Points `A` at the top of the stack. -/
def oneOperand : List AsmLine :=
  [loadCell .sp, copyTo .a .m, .assign .a (.pred .a)]

/-- Goes to a symbol. -/
def jumpTo (s : Symbol) : List AsmLine :=
  [.load (.symbol s), .branch .zero .jmp]

/-- Pushes the content of a cell. -/
def pushCell (c : Cell) : List AsmLine :=
  [loadCell c, copyTo .d .m] ++ pushD

/-- Takes back a cell from its place below the frame that `R13` points at. -/
def restoreCell (c : Cell) (depth : Word) : List AsmLine :=
  [loadCell .r13, copyTo .d .m, loadNumber depth, .assign .a (.dMinus .a), copyTo .d .m,
    loadCell c, copyTo .m .d]

/-- The words that a call saves: its return address and four bases. -/
def frameWords : Word := 5

/-! ### Blocks -/

/-- A comparison leaves -1 or 0 by the sign of lower minus upper operand. -/
def compareBlock (jump : Jump) (number : UInt32) : List AsmLine :=
  twoOperands ++
  [.assign .d (.minusD .m), .load (.symbol (.generated .holds number)), .branch (.copy .d) jump,
    loadCell .sp, .assign .a (.pred .m), .assign .m .zero] ++
  jumpTo (.generated .compared number) ++
  [.define (.generated .holds number), loadCell .sp, .assign .a (.pred .m), .assign .m .minusOne,
    .define (.generated .compared number)]

/-- The code of an operator; the number is for the labels of a comparison. -/
def operatorBlock (op : Operator) (number : UInt32) : List AsmLine :=
  match shapeOf op with
  | .binary value => twoOperands ++ [.assign .m value]
  | .unary value => oneOperand ++ [.assign .m value]
  | .compare jump => compareBlock jump number

/-- Points `A` at a cell of a segment, or sets it to the value for `constant`. -/
def addressBlock (unit : Option String) (segment : Segment) (index : Word) :
    Except Misuse (List AsmLine) :=
  match addressingOf segment with
  | .constant => .ok [loadNumber index]
  | .indirect base => .ok [loadCell base, copyTo .d .m, loadNumber index, .assign .a (.add .a)]
  | .fixed base => .ok [loadCell base, copyTo .d .a, loadNumber index, .assign .a (.add .a)]
  | .static =>
    match unit with
    | some unit => .ok [.load (.symbol (.static unit index))]
    | none => .error (.staticWithoutUnit index.toNat)

/-- Pushes a cell of a segment, or the value for `constant`. -/
def pushBlock (unit : Option String) (segment : Segment) (index : Word) :
    Except Misuse (List AsmLine) := do
  let address ← addressBlock unit segment index
  let source := if segment = .constant then Register.a else Register.m
  .ok (address ++ [copyTo .d source] ++ pushD)

/-- Pops into a cell of a segment. The address is found before the stack pointer moves, and waits in
`R13` while `D` is needed. -/
def popBlock (unit : Option String) (segment : Segment) (index : Word) :
    Except Misuse (List AsmLine) :=
  if segment = .constant then .error .popConstant
  else do
    let address ← addressBlock unit segment index
    .ok (address ++ [copyTo .d .a, loadCell .r13, copyTo .m .d] ++ popD ++
      [loadCell .r13, copyTo .a .m, copyTo .m .d])

/-- Jumps if the popped word is not zero. -/
def ifGotoBlock (target : Symbol) (number : UInt32) : List AsmLine :=
  popD ++
  [.load (.symbol (.generated .ifFalse number)), .branch (.copy .d) .jeq] ++
  jumpTo target ++
  [.define (.generated .ifFalse number)]

/-- Saves the return address and the four bases, moves `LCL` and `ARG`, and goes to the function. -/
def callBlock (name : String) (args : Word) (number : UInt32) : List AsmLine :=
  [.load (.symbol (.generated .returnSite number)), copyTo .d .a] ++ pushD ++
  pushCell .lcl ++ pushCell .arg ++ pushCell .this ++ pushCell .that ++
  [loadCell .sp, copyTo .d .m, loadCell .lcl, copyTo .m .d,
    loadNumber args, .assign .d (.dMinus .a), loadNumber frameWords, .assign .d (.dMinus .a),
    loadCell .arg, copyTo .m .d] ++
  jumpTo (.function name) ++
  [.define (.generated .returnSite number)]

/-- Reads the return address before it stores the result, since without arguments the result goes
where the return address is. -/
def returnBlock : List AsmLine :=
  [loadCell .lcl, copyTo .d .m, loadCell .r13, copyTo .m .d,
    loadNumber frameWords, .assign .a (.dMinus .a), copyTo .d .m, loadCell .r14, copyTo .m .d] ++
  popD ++
  [loadCell .arg, copyTo .a .m, copyTo .m .d, .assign .d (.succ .a), loadCell .sp, copyTo .m .d] ++
  restoreCell .that 1 ++ restoreCell .this 2 ++ restoreCell .arg 3 ++ restoreCell .lcl 4 ++
  [loadCell .r14, copyTo .a .m, .branch .zero .jmp]

/-- The entry of a function, and a loop that pushes a zero for each local. -/
def functionBlock (name : String) (locals : Word) (number : UInt32) : List AsmLine :=
  [.define (.function name), loadNumber locals, copyTo .d .a,
    .define (.generated .loopStart number), .load (.symbol (.generated .loopEnd number)),
    .branch (.copy .d) .jle, .assign .d (.pred .d), loadCell .r13, copyTo .m .d,
    loadNumber 0, copyTo .d .a] ++
  pushD ++
  [loadCell .r13, copyTo .d .m] ++
  jumpTo (.generated .loopStart number) ++
  [.define (.generated .loopEnd number)]

/-- Sets the stack pointer. -/
def stackBlock (base : Word) : List AsmLine :=
  [loadNumber base, copyTo .d .a, loadCell .sp, copyTo .m .d]

/-! ### Scopes -/

/-- What the code of an instruction depends on. -/
structure Scope where
  /-- The unit that static cells belong to, once there is one. -/
  unit : Option String := none
  /-- The function that labels of the source belong to; empty before the first. -/
  function : String := ""
  labels : LabelCounters := {}
  deriving DecidableEq, Repr

/-- The kind of label number that an instruction takes. -/
def labelKind? : Instruction → Option LabelKind
  | .arithmetic .eq | .arithmetic .gt | .arithmetic .lt => some .comparison
  | .ifGoto _ => some .ifFalse
  | .call .. => some .returnSite
  | .function .. => some .localsLoop
  | _ => none

namespace Scope

/-- The code of an instruction. -/
def block (s : Scope) : Instruction → Except Misuse (List AsmLine)
  | .arithmetic op => .ok (operatorBlock op s.labels.comparison)
  | .push segment index => pushBlock s.unit segment index
  | .pop segment index => popBlock s.unit segment index
  | .label name => .ok [.define (.scoped s.function name)]
  | .goto name => .ok (jumpTo (.scoped s.function name))
  | .ifGoto name => .ok (ifGotoBlock (.scoped s.function name) s.labels.ifFalse)
  | .function name locals => .ok (functionBlock name locals s.labels.localsLoop)
  | .call name args => .ok (callBlock name args s.labels.returnSite)
  | .ret => .ok returnBlock

/-- Takes the label number that an instruction needs. -/
def number (s : Scope) (i : Instruction) : Scope :=
  match labelKind? i with
  | some k => { s with labels := s.labels.issue k }
  | none => s

/-- Opens the function that an instruction declares, if it declares one. -/
def enter (s : Scope) : Instruction → Scope
  | .function name _ => { s with function := name }
  | _ => s

end Scope

end HackVM.Lowering

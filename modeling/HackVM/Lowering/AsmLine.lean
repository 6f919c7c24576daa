import HackVM.Hack.Computation
import HackVM.Lowering.Label

/-!
# Lines of assembly

Assembly is kept as typed lines until it is written. A symbol remembers what it names (a fixed cell,
a generated label, a label of the source, a function, a static cell), so questions about where
labels are defined and used are questions about lists of lines; `Symbol.text` and `AsmLine.text`
give the spelling.
-/

namespace HackVM.Lowering

open Text Hack

/-- The cells of RAM that the calling convention uses by name. -/
inductive Cell where
  /-- The stack pointer. -/
  | sp
  /-- The bases of the four segments that move. -/
  | lcl | arg | this | that
  /-- The first cell of `temp`. -/
  | r5
  /-- Scratch: the address of a pop, the frame of a return, the count of a locals loop. -/
  | r13
  /-- Scratch: the address that a return goes to. -/
  | r14
  deriving DecidableEq, Repr

/-- The name that the assembler knows a cell by. -/
def Cell.name : Cell → String
  | .sp => "SP"
  | .lcl => "LCL"
  | .arg => "ARG"
  | .this => "THIS"
  | .that => "THAT"
  | .r5 => "R5"
  | .r13 => "R13"
  | .r14 => "R14"

/-- What a name in the assembly stands for. -/
inductive Symbol where
  | cell (c : Cell)
  | generated (role : LabelRole) (number : UInt32)
  /-- A label of the source, inside the function it was written in. -/
  | scoped (scope label : String)
  | function (name : String)
  /-- A cell of the static segment of a unit. -/
  | static (unit : String) (index : Word)
  deriving DecidableEq, Repr

/-- The spelling of a symbol. -/
def Symbol.text : Symbol → String
  | .cell c => c.name
  | .generated role number => role.stem ++ Decimal.text number.toNat
  | .scoped scope label => scope ++ "." ++ label
  | .function name => name
  | .static unit index => unit ++ "." ++ Decimal.text index.toNat

/-- What an address instruction loads. -/
inductive Operand where
  | number (n : Word)
  | symbol (s : Symbol)
  deriving DecidableEq, Repr

/-- The spelling of an operand. -/
def Operand.text : Operand → String
  | .number n => Decimal.text n.toNat
  | .symbol s => s.text

/-- A line of assembly. -/
inductive AsmLine where
  | comment (text : String)
  | define (s : Symbol)
  | load (o : Operand)
  | assign (target : Register) (value : Computation)
  | branch (tested : Computation) (jump : Jump)
  deriving DecidableEq, Repr

/-- The spelling of a line, without its line feed. -/
def AsmLine.text : AsmLine → String
  | .comment text => "// " ++ text
  | .define s => "(" ++ s.text ++ ")"
  | .load o => "@" ++ o.text
  | .assign target value => target.text ++ "=" ++ value.text
  | .branch tested jump => tested.text ++ ";" ++ jump.text

/-- Lines as text, each followed by a line feed. -/
def render : List AsmLine → String
  | [] => ""
  | line :: rest => line.text ++ "\n" ++ render rest

end HackVM.Lowering

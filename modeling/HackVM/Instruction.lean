import HackVM.Text.Decimal
import HackVM.Word

/-!
# The instructions of the stack machine

Nine operators, eight segments and seventeen keywords, each a closed type with its spelling, and the
instructions built from them. `Instruction.text` writes an instruction the way a source line spells
it.
-/

namespace HackVM

/-! ### Operators -/

/-- Arithmetic, comparison and logic on the top of the stack. -/
inductive Operator where
  | add | sub | neg | eq | gt | lt | and | or | not
  deriving DecidableEq, Repr

namespace Operator

/-- Every operator. -/
def all : List Operator :=
  [.add, .sub, .neg, .eq, .gt, .lt, .and, .or, .not]

/-- The spelling of an operator. -/
def name : Operator → String
  | .add => "add"
  | .sub => "sub"
  | .neg => "neg"
  | .eq => "eq"
  | .gt => "gt"
  | .lt => "lt"
  | .and => "and"
  | .or => "or"
  | .not => "not"

/-- The operator with this exact name. -/
def ofName? (s : String) : Option Operator :=
  all.find? fun op => op.name == s

@[simp] theorem ofName?_name (op : Operator) : ofName? op.name = some op := by
  cases op <;> rfl

end Operator

/-! ### Segments -/

/-- Where a push reads from and a pop writes to. -/
inductive Segment where
  | constant | «local» | argument | this | that | pointer | temp | static
  deriving DecidableEq, Repr

namespace Segment

/-- Every segment. -/
def all : List Segment :=
  [.constant, .local, .argument, .this, .that, .pointer, .temp, .static]

/-- The spelling of a segment. -/
def name : Segment → String
  | .constant => "constant"
  | .local => "local"
  | .argument => "argument"
  | .this => "this"
  | .that => "that"
  | .pointer => "pointer"
  | .temp => "temp"
  | .static => "static"

/-- The segment with this exact name. -/
def ofName? (s : String) : Option Segment :=
  all.find? fun seg => seg.name == s

@[simp] theorem ofName?_name (s : Segment) : ofName? s.name = some s := by
  cases s <;> rfl

/-- The largest index that a source line may give. An index into `static` ends up in a symbol; every
other one is loaded as a number, so it has to be loadable. -/
def maxIndex : Segment → Nat
  | .static => Word.maxUnsigned
  | _ => Word.maxLoadable

end Segment

/-! ### Keywords -/

/-- The first word of a source line. -/
inductive Keyword where
  | operator (op : Operator)
  | push | pop | label | goto | ifGoto | function | call | ret
  deriving DecidableEq, Repr

namespace Keyword

/-- Every keyword. -/
def all : List Keyword :=
  Operator.all.map .operator ++ [.push, .pop, .label, .goto, .ifGoto, .function, .call, .ret]

/-- The spelling of a keyword, in lowercase. -/
def text : Keyword → String
  | .operator op => op.name
  | .push => "push"
  | .pop => "pop"
  | .label => "label"
  | .goto => "goto"
  | .ifGoto => "if-goto"
  | .function => "function"
  | .call => "call"
  | .ret => "return"

/-- The keyword with this exact spelling. -/
def ofText? (s : String) : Option Keyword :=
  all.find? fun k => k.text == s

@[simp] theorem ofText?_text (k : Keyword) : ofText? k.text = some k := by
  cases k with
  | operator op => cases op <;> rfl
  | _ => rfl

end Keyword

/-! ### Instructions -/

/-- One instruction of the stack machine. Names are any text: what a source line can spell is the
reader's concern. -/
inductive Instruction where
  | arithmetic (op : Operator)
  | push (segment : Segment) (index : Word)
  | pop (segment : Segment) (index : Word)
  | label (name : String)
  | goto (name : String)
  | ifGoto (name : String)
  | function (name : String) (locals : Word)
  | call (name : String) (args : Word)
  | ret
  deriving DecidableEq, Repr

namespace Instruction

/-- The keyword that an instruction is written with. -/
def keyword : Instruction → Keyword
  | .arithmetic op => .operator op
  | .push .. => .push
  | .pop .. => .pop
  | .label _ => .label
  | .goto _ => .goto
  | .ifGoto _ => .ifGoto
  | .function .. => .function
  | .call .. => .call
  | .ret => .ret

/-- The name that an instruction is about: an operator, a segment, a label or a function; empty for
a return. -/
def subject : Instruction → String
  | .arithmetic op => op.name
  | .push segment _ | .pop segment _ => segment.name
  | .label name | .goto name | .ifGoto name | .function name _ | .call name _ => name
  | .ret => ""

/-- The number that an instruction carries: an index, or a count of locals or arguments; 0 without
one. -/
def number : Instruction → Word
  | .push _ n | .pop _ n | .function _ n | .call _ n => n
  | _ => 0

/-- The instruction as a source line spells it. -/
def text (i : Instruction) : String :=
  match i with
  | .arithmetic op => op.name
  | .push .. | .pop .. | .function .. | .call .. =>
    i.keyword.text ++ " " ++ i.subject ++ " " ++ Text.Decimal.text i.number.toNat
  | .label name | .goto name | .ifGoto name => i.keyword.text ++ " " ++ name
  | .ret => i.keyword.text

end Instruction

end HackVM

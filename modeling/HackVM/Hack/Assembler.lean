import HackVM.Hack.Computation
import HackVM.Text.Decimal
import HackVM.Text.Line

/-!
# The Hack assembler

Assembly text becomes a program in two passes. The first gives every label the address of the
operation behind it; the second turns the other lines into operations and gives every name it has
not met before the next free cell of RAM, from 16. A name means one thing throughout: a number if it
spells one that fits a word, else a predefined symbol, a label, or a variable.

The assembler does not judge computations and jumps: a mnemonic it does not know is kept as text,
and faults when it is executed.
-/

namespace HackVM.Hack

open Text

/-! ### Statements -/

/-- Where the result of a compute instruction goes. -/
structure Destinations where
  a : Bool
  d : Bool
  m : Bool
  deriving DecidableEq, Repr

/-- A compute instruction. Mnemonics that name nothing are kept as text. -/
structure Compute where
  dest : Destinations
  value : Except String Computation
  jump : Except String (Option Jump)

/-- A line of assembly as the assembler sees it. -/
inductive Statement where
  | define (name : String)
  /-- A label definition that is not closed: it takes up an address but gives no operation. -/
  | unclosed
  | load (operand : String)
  | compute (c : Compute)

/-- Splits a text at the first occurrence of a character. -/
def splitAtFirst? (sep : Char) (cs : List Char) : Option (List Char × List Char) :=
  match cs.dropWhile (· != sep) with
  | [] => none
  | _ :: after => some (cs.takeWhile (· != sep), after)

/-- Reads `dest=value;jump`, where the destination and the jump may be missing. -/
def Compute.ofText (cs : List Char) : Compute :=
  let (dest, rest) := (splitAtFirst? '=' cs).getD ([], cs)
  let (value, jump) : List Char × Option (List Char) :=
    match splitAtFirst? ';' rest with
    | some (value, jump) => (value, some jump)
    | none => (rest, none)
  let value := String.ofList value
  { dest := ⟨dest.contains 'A', dest.contains 'D', dest.contains 'M'⟩
    value := (Computation.ofText? value).elim (.error value) .ok
    jump :=
      match jump with
      | none => .ok none
      | some jump =>
        let jump := String.ofList jump
        (Jump.ofText? jump).elim (.error jump) fun j => .ok (some j) }

/-- Reads a line of code. -/
def Statement.ofText : List Char → Statement
  | '(' :: cs => if cs.getLast? = some ')' then .define (String.ofList cs.dropLast) else .unclosed
  | '@' :: cs => .load (String.ofList cs)
  | cs => .compute (Compute.ofText cs)

/-- The statements of a text: one for each line that holds code. -/
def statements (text : String) : List Statement :=
  (((lines text.toList).map codeOf).filter fun cs => !cs.isEmpty).map Statement.ofText

/-! ### Symbols -/

/-- Names with their values, latest first. -/
abbrev SymbolTable := List (String × Word)

/-- The names that every program may use. -/
def predefined : SymbolTable :=
  [("SP", 0), ("LCL", 1), ("ARG", 2), ("THIS", 3), ("THAT", 4)] ++
    (List.range 16).map (fun n => ("R" ++ Decimal.text n, BitVec.ofNat 16 n)) ++
    [("SCREEN", 16384), ("KBD", 24576)]

/-- The first cell of RAM that is given to a variable. -/
def firstVariable : Nat := 16

/-- Why a text cannot be assembled. -/
inductive AssemblyFault where
  | duplicateLabel (name : String)
  /-- More operations, or more variables, than a word can count. -/
  | tooLarge
  deriving DecidableEq, Repr

/-- The wording of a fault. -/
def AssemblyFault.message : AssemblyFault → String
  | .duplicateLabel name => "label (" ++ name ++ ") defined more than once"
  | .tooLarge => "attempt to add with overflow"

/-- The next number, as long as it fits a word. -/
def nextCount (n : Nat) : Except AssemblyFault Nat :=
  if n < Word.maxUnsigned then .ok (n + 1) else .error .tooLarge

/-! ### First pass -/

/-- The labels met so far. -/
structure Labels where
  symbols : SymbolTable := predefined
  /-- The labels in the order of their definitions. -/
  names : List String := []
  /-- The address of the next operation. -/
  address : Nat := 0

/-- Takes note of one statement. -/
def Labels.note (l : Labels) : Statement → Except AssemblyFault Labels
  | .define name =>
    match l.symbols.lookup name with
    | some _ => .error (.duplicateLabel name)
    | none =>
      .ok { l with
        symbols := (name, BitVec.ofNat 16 l.address) :: l.symbols
        names := l.names ++ [name] }
  | _ => do
    let address ← nextCount l.address
    .ok { l with address }

/-- The labels of a list of statements. -/
def collectLabels (ss : List Statement) : Except AssemblyFault Labels :=
  ss.foldlM Labels.note {}

/-! ### Second pass -/

/-- An instruction in ROM. -/
inductive Operation where
  | load (value : Word)
  | compute (c : Compute)

/-- The number that an operand spells, if it fits a word. -/
def numeral? (operand : String) : Option Word :=
  match Decimal.readUnsigned? operand.toList with
  | some n => if n ≤ Word.maxUnsigned then some (BitVec.ofNat 16 n) else none
  | none => none

/-- The symbols met so far, and the cell of the next variable. -/
structure Symbols where
  table : SymbolTable
  nextCell : Nat := firstVariable

/-- The value of an operand, which may be a new variable. -/
def Symbols.resolve (s : Symbols) (operand : String) : Except AssemblyFault (Word × Symbols) :=
  match numeral? operand with
  | some n => .ok (n, s)
  | none =>
    match s.table.lookup operand with
    | some value => .ok (value, s)
    | none => do
      let value := BitVec.ofNat 16 s.nextCell
      let next ← nextCount s.nextCell
      .ok (value, ⟨(operand, value) :: s.table, next⟩)

/-- The operations of statements, and the symbols afterwards. -/
def encodeFrom (s : Symbols) : List Statement → Except AssemblyFault (List Operation × Symbols)
  | [] => .ok ([], s)
  | .define _ :: rest | .unclosed :: rest => encodeFrom s rest
  | .compute c :: rest => do
    let (ops, s) ← encodeFrom s rest
    .ok (.compute c :: ops, s)
  | .load operand :: rest => do
    let (value, s) ← s.resolve operand
    let (ops, s) ← encodeFrom s rest
    .ok (.load value :: ops, s)

/-! ### Programs -/

/-- An assembled program. -/
structure Program where
  rom : Array Operation
  symbols : SymbolTable
  /-- The labels in the order of their definitions. -/
  labels : List String

/-- The value of a symbol. -/
def Program.symbol? (p : Program) (name : String) : Option Word :=
  p.symbols.lookup name

/-- Assembles a text. -/
def assemble (text : String) : Except AssemblyFault Program := do
  let ss := statements text
  let labels ← collectLabels ss
  let (ops, symbols) ← encodeFrom { table := labels.symbols } ss
  .ok { rom := ops.toArray, symbols := symbols.table, labels := labels.names }

end HackVM.Hack

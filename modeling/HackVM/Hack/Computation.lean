import HackVM.Word

/-!
# Computations and jumps of the Hack machine

The machine has two registers, `A` and `D`, and sees one RAM cell at a time, `M`, the one that `A`
points at. A compute instruction evaluates one of 28 *computations* on these three words, stores the
result, and may jump by the sign of the result. Each computation has a spelling
(`Computation.text`); sums, conjunctions and disjunctions are understood in either order.
-/

namespace HackVM.Hack

/-- The three words that a computation can use and a result can go to. -/
inductive Register where
  | a | d | m
  deriving DecidableEq, Repr

/-- The spelling of a register. -/
def Register.text : Register → String
  | .a => "A"
  | .d => "D"
  | .m => "M"

/-- The operand beside `D` in a computation on two words. -/
inductive Side where
  | a | m
  deriving DecidableEq, Repr

/-- The spelling of an operand. -/
def Side.text : Side → String
  | .a => "A"
  | .m => "M"

/-- What a compute instruction evaluates. -/
inductive Computation where
  | zero
  | one
  | minusOne
  | copy (r : Register)
  | not (r : Register)
  | neg (r : Register)
  | succ (r : Register)
  | pred (r : Register)
  /-- `D` plus the operand. -/
  | add (s : Side)
  /-- `D` minus the operand. -/
  | dMinus (s : Side)
  /-- The operand minus `D`. -/
  | minusD (s : Side)
  | and (s : Side)
  | or (s : Side)
  deriving DecidableEq, Repr

namespace Computation

/-- The spelling of a computation. -/
def text : Computation → String
  | .zero => "0"
  | .one => "1"
  | .minusOne => "-1"
  | .copy r => r.text
  | .not r => "!" ++ r.text
  | .neg r => "-" ++ r.text
  | .succ r => r.text ++ "+1"
  | .pred r => r.text ++ "-1"
  | .add s => "D+" ++ s.text
  | .dMinus s => "D-" ++ s.text
  | .minusD s => s.text ++ "-D"
  | .and s => "D&" ++ s.text
  | .or s => "D|" ++ s.text

/-- The spelling with the operands the other way round, where that means the same. -/
def swapped? : Computation → Option String
  | .add s => some (s.text ++ "+D")
  | .and s => some (s.text ++ "&D")
  | .or s => some (s.text ++ "|D")
  | _ => none

/-- Every computation. -/
def all : List Computation :=
  [.zero, .one, .minusOne] ++
    [Register.d, .a, .m].flatMap (fun r => [.copy r, .not r, .neg r, .succ r, .pred r]) ++
    [Side.a, .m].flatMap (fun s => [.add s, .dMinus s, .minusD s, .and s, .or s])

/-- The computation that a text spells, in either order of operands. -/
def ofText? (s : String) : Option Computation :=
  all.find? fun c => c.text == s || c.swapped? == some s

@[simp] theorem ofText?_text (c : Computation) : ofText? c.text = some c := by
  cases c with
  | zero | one | minusOne => rfl
  | copy r | not r | neg r | succ r | pred r => cases r <;> rfl
  | add s | dMinus s | minusD s | and s | or s => cases s <;> rfl

/-- The value of a computation on the three words. Everything wraps at 16 bits. -/
def eval (a d m : Word) : Computation → Word :=
  let reg : Register → Word
    | .a => a
    | .d => d
    | .m => m
  let side : Side → Word
    | .a => a
    | .m => m
  fun
  | .zero => 0
  | .one => 1
  | .minusOne => -1
  | .copy r => reg r
  | .not r => ~~~ reg r
  | .neg r => - reg r
  | .succ r => reg r + 1
  | .pred r => reg r - 1
  | .add s => d + side s
  | .dMinus s => d - side s
  | .minusD s => side s - d
  | .and s => d &&& side s
  | .or s => d ||| side s

end Computation

/-- When a compute instruction jumps, by its result as a signed number. -/
inductive Jump where
  | jgt | jeq | jge | jlt | jne | jle | jmp
  deriving DecidableEq, Repr

namespace Jump

/-- The spelling of a jump. -/
def text : Jump → String
  | .jgt => "JGT"
  | .jeq => "JEQ"
  | .jge => "JGE"
  | .jlt => "JLT"
  | .jne => "JNE"
  | .jle => "JLE"
  | .jmp => "JMP"

/-- Every jump. -/
def all : List Jump :=
  [.jgt, .jeq, .jge, .jlt, .jne, .jle, .jmp]

/-- The jump that a text spells. -/
def ofText? (s : String) : Option Jump :=
  all.find? fun j => j.text == s

@[simp] theorem ofText?_text (j : Jump) : ofText? j.text = some j := by
  cases j <;> rfl

/-- Whether a result makes the machine jump. -/
def taken (out : Word) : Jump → Bool
  | .jgt => 0 < out.toInt
  | .jeq => out.toInt = 0
  | .jge => 0 ≤ out.toInt
  | .jlt => out.toInt < 0
  | .jne => out.toInt ≠ 0
  | .jle => out.toInt ≤ 0
  | .jmp => true

end Jump

end HackVM.Hack

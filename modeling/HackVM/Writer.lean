import HackVM.Lowering.Block
import HackVM.Program.Options
import HackVM.Sink

/-!
# Writers

A writer lowers instructions and writes their code to a sink. It keeps the books of one run: the
scope, and how many lines were written. Every operation gives back a writer, also when it fails,
because a sink that fails has taken some bytes.

The order of events within an operation is fixed. A comment is an emission of its own, before the
instruction is looked at. A misuse is found before anything else of the instruction happens. Label
numbers are taken before the code is written; lines are counted, and a function is entered, only
once all of the code has been taken.
-/

namespace HackVM

open Lowering

/-- A sink with the books of a run. -/
structure Writer where
  options : Options := {}
  sink : Sink := {}
  scope : Scope := {}
  /-- The lines of the blocks that were written in full. -/
  lines : Nat := 0

namespace Writer

/-- An operation on a writer: its outcome, and the writer afterwards. -/
abbrev Step := Except Error Unit × Writer

/-- Goes on with `next` if the step before it succeeded. -/
def Step.andThen (step : Step) (next : Writer → Step) : Step :=
  match step with
  | (.ok (), w) => next w
  | (.error e, w) => (.error e, w)

/-- Writes a block. -/
def emit (w : Writer) (block : List AsmLine) : Step :=
  match w.sink.write (render block).toUTF8 with
  | (.ok (), sink) => (.ok (), { w with sink, lines := w.lines + block.length })
  | (.error fault, sink) => (.error (.cannotWrite fault), { w with sink })

/-- Names the unit that the next instructions come from. -/
def setUnit (w : Writer) (name : String) : Writer :=
  { w with scope := { w.scope with unit := some name } }

/-- Enters the function that an instruction declares. -/
def enter (w : Writer) (i : Instruction) : Writer :=
  { w with scope := w.scope.enter i }

/-- Writes the code of an instruction. -/
def write (w : Writer) (i : Instruction) : Step :=
  match w.scope.block i with
  | .error m => (.error (.misuse m), w)
  | .ok block =>
    Step.andThen (emit { w with scope := w.scope.number i } block) fun w => (.ok (), w.enter i)

/-- Writes an instruction as a comment, if the options ask for it. -/
def annotate (w : Writer) (i : Instruction) : Step :=
  if w.options.annotate then w.emit [.comment i.text] else (.ok (), w)

/-- Writes an instruction: the comment, if any, then the code. -/
def lower (w : Writer) (i : Instruction) : Step :=
  (w.annotate i).andThen fun w => w.write i

/-- Writes the code that starts a program. It has to come first. -/
def bootstrap (w : Writer) : Step :=
  if 0 < w.lines then (.error (.misuse .lateBootstrap), w)
  else
    let comment := if w.options.annotate then [AsmLine.comment "bootstrap"] else []
    (w.emit (comment ++ stackBlock w.options.stackBase)).andThen fun w =>
      w.write (.call w.options.entry 0)

/-- Hands over the sink, flushed. -/
def finish (w : Writer) : Except Error Sink :=
  match w.sink.flush with
  | .ok () => .ok w.sink
  | .error fault => .error (.cannotWrite fault)

end Writer

end HackVM

import HackVM.Program.Report
import HackVM.Program.SourceUnit

/-!
# Compiling a program

A run compiles its units in order into one program, with the bootstrap first if the options ask for
it. The first failure ends the run, and nothing of what was written is kept.
-/

namespace HackVM

open Source

/-- A finished program: its bytes, and what it took to make them. -/
structure Assembly where
  bytes : ByteArray
  instructions : Nat
  lines : Nat
  labels : UInt32

/-- The program as text. The bytes are those of whole lines of text. -/
def Assembly.text (a : Assembly) : String :=
  (String.fromUTF8? a.bytes).getD ""

/-- The journal's entry for an instruction that declares a function. -/
def enteredEvent? : Instruction → Option Event
  | .function name locals => some (.functionEntered name locals)
  | _ => none

/-- What is reported about a unit that was lowered. -/
def loweringReports (u : SourceUnit) (o : Outcome Writer) : List Report :=
  [.event (.unitStarted u.name)] ++
  (o.done.filterMap enteredEvent?).map .event ++
  o.diagnostics.map (.diagnostic u.path) ++
  (if o.failure.isNone then [.event (.unitFinished u.name o.done.length)] else [])

/-- The count of instructions, or the failure that ended a reading. -/
def Outcome.result {σ : Type} (o : Outcome σ) : Except Error (Nat × σ) :=
  match o.failure with
  | some e => .error e
  | none => .ok (o.done.length, o.final)

/-- Lowers units in order and counts their instructions. -/
def lowerUnits (w : Writer) : List SourceUnit → Attempt (Nat × Writer)
  | [] => ⟨[], .ok (0, w)⟩
  | u :: rest =>
    let o := w.lowerUnit u
    Attempt.andThen ⟨loweringReports u o, o.result⟩ fun (count, w) =>
      (lowerUnits w rest).andThen fun (more, w) => ⟨[], .ok (count + more, w)⟩

/-- The writer that a run starts with. -/
def startWriter (options : Options) : Except Error Writer :=
  let w : Writer := { options }
  if options.bootstrap then
    match w.bootstrap with
    | (.ok (), w) => .ok w
    | (.error e, _) => .error e
  else .ok w

/-- The program that a writer holds. -/
def closeWriter (instructions : Nat) (w : Writer) : Attempt Assembly :=
  match w.finish with
  | .error e => ⟨[], .error e⟩
  | .ok sink =>
    ⟨[.event (.runFinished w.lines w.scope.labels)],
      .ok { bytes := sink.accepted
            instructions
            lines := w.lines
            labels := w.scope.labels.total }⟩

/-- Compiles units into one program. -/
def compile (options : Options) (units : List SourceUnit) : Attempt Assembly :=
  Attempt.andThen ⟨[], startWriter options⟩ fun w =>
    (lowerUnits w units).andThen fun (count, w) => closeWriter count w

end HackVM

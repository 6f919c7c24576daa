import HackVM.Diagnostic
import HackVM.Files.Path
import HackVM.Lowering.Label
import HackVM.Text.Quoted

/-!
# Reports

What a run tells while it works, in order: events for the journal, diagnostics about the source, and
status lines. Each event has a level, and a run shows the events up to the level it was asked for.
An `Attempt` is a piece of work with its reports and its result.
-/

namespace HackVM

open Text Lowering

/-- How much of the journal is shown. -/
inductive LogLevel where
  | off | error | warn | info | debug | trace
  deriving DecidableEq, Repr

namespace LogLevel

/-- How much a level shows, from nothing to everything. -/
def rank : LogLevel → Nat
  | .off => 0
  | .error => 1
  | .warn => 2
  | .info => 3
  | .debug => 4
  | .trace => 5

/-- The name of a level. -/
def name : LogLevel → String
  | .off => "off"
  | .error => "error"
  | .warn => "warn"
  | .info => "info"
  | .debug => "debug"
  | .trace => "trace"

/-- Every level. -/
def all : List LogLevel :=
  [.off, .error, .warn, .info, .debug, .trace]

/-- The level that a setting names, by its name in any case or by its rank. The empty setting asks
for errors. -/
def ofText? (s : String) : Option LogLevel :=
  if s = "" then some .error
  else all.find? fun l => l.name == s.map Char.toLower || Decimal.text l.rank == s

/-- Whether a journal that shows this level shows an event of the other one. -/
def shows (shown level : LogLevel) : Bool :=
  level.rank ≤ shown.rank

end LogLevel

/-- What the journal records. -/
inductive Event where
  | inputsResolved (count : Nat) (input : Path)
  | unitStarted (name : String)
  | functionEntered (name : String) (locals : Word)
  | unitFinished (name : String) (instructions : Nat)
  | runFinished (lines : Nat) (labels : LabelCounters)
  | assemblyWritten (output : Path) (units instructions lines : Nat)
    (labels : UInt32)
  deriving DecidableEq, Repr

namespace Event

/-- The level at which an event is shown. -/
def level : Event → LogLevel
  | .assemblyWritten .. => .info
  | .functionEntered .. => .trace
  | .inputsResolved .. | .unitStarted _ | .unitFinished .. | .runFinished .. => .debug

/-- A field of an event, by its name and its value. -/
def field (name value : String) : String :=
  " " ++ name ++ "=" ++ value

/-- The wording of an event. Names are quoted where they may hold anything. -/
def text : Event → String
  | .inputsResolved count input =>
    "resolved inputs" ++ field "count" (Decimal.text count) ++ field "input" input.text
  | .unitStarted name => "translating unit" ++ field "unit" (Quoted.quote name)
  | .functionEntered name locals =>
    "entered function" ++ field "function" (Quoted.quote name) ++
      field "locals" (Decimal.text locals.toNat)
  | .unitFinished name instructions =>
    "unit translated" ++ field "unit" name ++ field "instructions" (Decimal.text instructions)
  | .runFinished lines labels =>
    "translation finished" ++ field "lines" (Decimal.text lines) ++ field "labels" labels.text
  | .assemblyWritten output units instructions lines labels =>
    "assembly written" ++ field "output" output.text ++ field "units" (Decimal.text units) ++
      field "instructions" (Decimal.text instructions) ++ field "lines" (Decimal.text lines) ++
      field "labels" (Decimal.text labels.toNat)

end Event

/-- Something that a run tells. -/
inductive Report where
  | event (e : Event)
  /-- A diagnostic about the unit at a path. -/
  | diagnostic (path : Path) (d : Diagnostic)
  | status (line : String)
  deriving DecidableEq, Repr

namespace Report

/-- The diagnostic that a report is. -/
def diagnostic? : Report → Option Diagnostic
  | .diagnostic _ d => some d
  | _ => none

/-- The status line that a report is. -/
def status? : Report → Option String
  | .status line => some line
  | _ => none

/-- The report as it is shown, in lines of text. -/
def text : Report → String
  | .event e => e.level.name.map Char.toUpper ++ " " ++ e.text
  | .status line => line
  | .diagnostic path d =>
    let severity := match d.severity with
      | .error => "Error: "
      | .warning => "Warning: "
    let place :=
      "\n  at " ++ path.text ++ ", line " ++ Decimal.text d.span.line.toNat ++ ", bytes " ++
      Decimal.text d.span.start.toNat ++ " to " ++ Decimal.text d.span.stop.toNat
    severity ++ d.message ++ place ++
      String.join (d.notes.map fun note => "\n  note: " ++ note) ++
      (d.help.map fun help => "\n  help: " ++ help).getD ""

/-- Whether the report is shown when the journal shows this level. -/
def shownAt (level : LogLevel) : Report → Bool
  | .event e => level.shows e.level
  | _ => true

end Report

/-- What was reported on the way, and what came of it. -/
structure Attempt (α : Type) where
  reports : List Report
  result : Except Error α

/-- Goes on with the result, if there is one. -/
def Attempt.andThen {α β : Type} (t : Attempt α) (next : α → Attempt β) : Attempt β :=
  match t.result with
  | .error e => ⟨t.reports, .error e⟩
  | .ok a =>
    let rest := next a
    ⟨t.reports ++ rest.reports, rest.result⟩

end HackVM

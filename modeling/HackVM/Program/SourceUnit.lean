import HackVM.Files.Tree
import HackVM.Source.Reading
import HackVM.Writer

/-!
# Source units

A unit is a named piece of source. Its lines are read in order, and each instruction is dealt with
as soon as it is read; the first failure ends the unit (`readEach`). Reading a unit to check it and
reading it to lower it differ only in what is done with an instruction.
-/

namespace HackVM

open Source

/-- A unit of source: its name, which qualifies static cells, where it is from, and its text. -/
structure SourceUnit where
  name : String
  path : Path
  source : String
  deriving DecidableEq, Repr

/-- Extension of source files. -/
def sourceExtension : String := "vm"

/-- The name of the unit at a path. -/
def unitName (p : Path) : String :=
  p.stem?.getD ""

namespace SourceUnit

/-- A unit that comes from no file. -/
def named (name source : String) : SourceUnit :=
  { name, path := ⟨name ++ "." ++ sourceExtension⟩, source }

/-- The unit in a file. -/
def load (t : FileTree) (p : Path) : Except Error SourceUnit :=
  match t.readText p with
  | .ok source => .ok { name := unitName p, path := p, source }
  | .error fault => .error (.cannotOpen p.text fault)

end SourceUnit

/-- What came of reading lines and dealing with their instructions. -/
structure Outcome (σ : Type) where
  /-- The instructions that were dealt with, in order. -/
  done : List Instruction
  /-- The warnings of the lines that were read. -/
  warnings : List Diagnostic
  failure : Option Error
  /-- What the actions left behind. -/
  final : σ

/-- The diagnostics to show: the warnings, then the failure if it lies in the source. -/
def Outcome.diagnostics {σ : Type} (o : Outcome σ) : List Diagnostic :=
  o.warnings ++ (o.failure.bind Error.diagnostic?).toList

/-- Reads lines in order and hands each instruction to `act`, until a line or an action fails. -/
def readEach {σ : Type} (act : σ → Instruction → Except Error Unit × σ) (s : σ) :
    List CodeLine → Outcome σ
  | [] => ⟨[], [], none, s⟩
  | l :: rest =>
    let reading := l.read
    match reading.result with
    | .error e => ⟨[], reading.warnings, some (.source e), s⟩
    | .ok i =>
      match act s i.value with
      | (.error e, s) => ⟨[], reading.warnings, some e, s⟩
      | (.ok (), s) =>
        let o := readEach act s rest
        { o with done := i.value :: o.done, warnings := reading.warnings ++ o.warnings }

/-- Lowers a unit. -/
def Writer.lowerUnit (w : Writer) (u : SourceUnit) : Outcome Writer :=
  readEach Writer.lower (w.setUnit u.name) (codeLines u.source)

/-- Reads a unit without lowering it. -/
def SourceUnit.check (u : SourceUnit) : Outcome Unit :=
  readEach (fun _ _ => (.ok (), ())) () (codeLines u.source)

end HackVM

import HackVM.Program.Compile

/-!
# Building and checking files

The input of a run is a source file, or a directory that stands for all source files directly inside
it, in the order of their names. A build writes its output only after everything else succeeded; a
check writes nothing.

`FileWork` is an attempt that may change files. It gives back the files with every result, also if
it failed, so what was done before a failure shows.
-/

namespace HackVM

/-- What came of work on files: its reports, its result, and the files as it leaves them. -/
structure FileWork (α : Type) extends Attempt α where
  tree : FileTree

/-- An attempt that changes no file, as work on a tree. -/
def Attempt.on {α : Type} (a : Attempt α) (t : FileTree) : FileWork α :=
  { a with tree := t }

/-- Goes on with the result and the files, if there is a result. A failure keeps the files as they
are by then. -/
def FileWork.andThen {α β : Type} (w : FileWork α) (next : α → FileTree → FileWork β) :
    FileWork β :=
  match w.result with
  | .error e => { reports := w.reports, result := .error e, tree := w.tree }
  | .ok a =>
    let rest := next a w.tree
    { rest with reports := w.reports ++ rest.reports }

/-- Without the files, work is an attempt like any other. -/
theorem FileWork.toAttempt_andThen {α β : Type} (w : FileWork α)
    (next : α → FileTree → FileWork β) :
    (w.andThen next).toAttempt = w.toAttempt.andThen fun a => (next a w.tree).toAttempt := by
  unfold andThen Attempt.andThen
  cases w.result <;> rfl

/-- Extension of the assembly that a build writes. -/
def assemblyExtension : String := "asm"

/-- Whether a path names a source file. -/
def hasSourceExtension (p : Path) : Bool :=
  p.extension? == some sourceExtension

/-- The source files that an input stands for. -/
def resolveInputs (t : FileTree) (input : Path) : Except Error (List Path) :=
  if t.isDirectory input then
    match t.list input with
    | .error fault => .error (.cannotOpen input.text fault)
    | .ok names =>
      let sorted := names.mergeSort fun a b => a.text ≤ b.text
      let files := (sorted.map fun name => input.join name.text).filter fun p =>
        t.isFile p && hasSourceExtension p
      if files = [] then .error (.noInputs input.text) else .ok files
  else if hasSourceExtension input then .ok [input]
  else .error (.noInputs input.text)

/-- Where a build writes unless it is told where: beside a file, or inside a directory under the
directory's own name. -/
def defaultOutput (t : FileTree) (input : Path) : Path :=
  if t.isDirectory input then
    let name := (input.fileName? <|> t.directoryName? input).getD "out"
    input.join (name ++ "." ++ assemblyExtension)
  else input.withExtension assemblyExtension

/-- Finds and loads the units of an input. -/
def loadUnits (t : FileTree) (input : Path) : Attempt (List SourceUnit) :=
  match resolveInputs t input with
  | .error e => ⟨[], .error e⟩
  | .ok paths => ⟨[.event (.inputsResolved paths.length input)], paths.mapM (SourceUnit.load t)⟩

/-- What a build did. -/
structure BuildSummary where
  output : Path
  units : Nat
  instructions : Nat
  lines : Nat
  labels : UInt32
  deriving DecidableEq, Repr

/-- Writes a program to its file. -/
def writeAssembly (t : FileTree) (output : Path) (units : Nat) (a : Assembly) :
    FileWork BuildSummary :=
  match t.write output a.bytes with
  | (.error fault, t) => Attempt.on ⟨[], .error (.cannotOpen output.text fault)⟩ t
  | (.ok (), t) =>
    Attempt.on ⟨[.event (.assemblyWritten output units a.instructions a.lines a.labels)],
      .ok ⟨output, units, a.instructions, a.lines, a.labels⟩⟩ t

/-- Builds an input into an output file. -/
def build (t : FileTree) (input output : Path) (options : Options) : FileWork BuildSummary :=
  ((loadUnits t input).on t).andThen fun units t =>
    ((compile options units).on t).andThen fun assembly t =>
      writeAssembly t output units.length assembly

/-- What a check found. -/
structure CheckSummary where
  units : Nat
  instructions : Nat
  deriving DecidableEq, Repr

/-- Reads units in order and counts their instructions. -/
def checkUnits : List SourceUnit → Attempt Nat
  | [] => ⟨[], .ok 0⟩
  | u :: rest =>
    let o := u.check
    Attempt.andThen ⟨o.diagnostics.map (.diagnostic u.path), o.result⟩ fun (count, ()) =>
      (checkUnits rest).andThen fun more => ⟨[], .ok (count + more)⟩

/-- Reads an input without writing anything. -/
def check (t : FileTree) (input : Path) : FileWork CheckSummary :=
  ((loadUnits t input).on t).andThen fun units t =>
    ((checkUnits units).on t).andThen fun count t => Attempt.on ⟨[], .ok ⟨units.length, count⟩⟩ t

end HackVM

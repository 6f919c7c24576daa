import HackVM.CommandLine.Session

/-!
# The program

The outer layer: it takes a picture of the files that a command can touch, runs the command line on
the picture, shows what it tells, and writes the files that have changed.
-/

namespace HackVM.CommandLine

/-- The absolute path of a location. -/
def absolute (l : Location) : String :=
  "/" ++ "/".intercalate (l.map FileName.text)

/-- Takes what stands at a location into the picture. -/
def observe (t : FileTree) (l : Location) : IO FileTree := do
  try
    let place ← IO.FS.realPath (absolute l)
    if ← place.isDir then return t.put l .directory
    else return t.put l (.file (← IO.FS.readBinFile (absolute l)))
  catch _ => return t

/-- Takes a path and everything on the way to it into the picture. -/
def observePath (t : FileTree) (p : Path) : IO FileTree := do
  let mut t := t
  for n in [0 : p.parts.length + 1] do
    if let some l := t.place? ⟨"/".intercalate (p.parts.take n)⟩ then
      for k in [1 : l.length + 1] do
        t ← observe t (l.take k)
  return t

/-- Takes the source files inside a directory into the picture. -/
def observeSources (t : FileTree) (p : Path) : IO FileTree := do
  let some l := t.place? p | return t
  let mut t := t
  try
    let place ← IO.FS.realPath (absolute l)
    for entry in ← place.readDir do
      if let some name := FileName.ofText? entry.fileName then
        if hasSourceExtension (p.join name.text) then
          t ← observe t (l ++ [name])
    return t
  catch _ => return t

/-- The picture that a command needs. -/
def picture (command : Command) : IO FileTree := do
  let here := (← IO.currentDir).toString
  let t : FileTree := { current := (FileTree.place? {} ⟨here⟩).getD [] }
  let t ← observePath t ⟨here⟩
  match command with
  | .check input => observeSources (← observePath t input) input
  | .build input output _ =>
    let t ← observeSources (← observePath t input) input
    observePath t (output.getD (defaultOutput t input))

/-- Shows a session and writes the files that it changed. -/
def publish (before : FileTree) (s : Session) : IO UInt32 := do
  for (l, node) in s.tree.changesSince before do
    match node with
    | .file content => IO.FS.writeBinFile (absolute l) content
    | .directory => pure ()
  for report in s.reports do
    IO.eprintln report.text
  IO.print s.answer.text
  if s.exitCode = 2 then IO.eprint usageText
  return s.exitCode.toUInt32

/-- The environment variable that sets the level of the journal when the command line does not. -/
def journalVariable : String :=
  "RUST_LOG"

/-- Runs a command line on the files of the machine. -/
def run (args : List String) : IO UInt32 := do
  let setting ← IO.getEnv journalVariable
  let t ← match parse args with
    | .run command _ => picture command
    | _ => pure {}
  publish t (session t setting args)

end HackVM.CommandLine

/-- Runs the command line and ends with its exit code. -/
def main (args : List String) : IO UInt32 :=
  HackVM.CommandLine.run args

import HackVM.Source.Reading

/-!
# Readers

A reader hands out a unit's instructions one at a time and keeps the warnings met on the way until
they are taken. It never stops at a bad line.

A reader looks one code line ahead: it holds the next one, and it stands behind the physical line
that this one was found on. So whether there is another line is known without a search. A line is
taken up in two steps: the reader moves on to the code line behind it, and only then is the line
itself read.
-/

namespace HackVM.Source

open Text

/-- A place in a unit's text, the code line that comes next, and the warnings of the lines read that
were not yet taken. -/
structure Reader where
  /-- The physical lines behind the place. -/
  unread : List (List Char)
  /-- The number of physical lines before the place. -/
  passed : Nat
  /-- The number of bytes before the place. -/
  offset : Nat
  /-- The next code line; there is none at the end. -/
  held : Option CodeLine
  warnings : List Diagnostic

namespace Reader

/-- Passes physical lines until one of them holds code. -/
def seek (warnings : List Diagnostic) (passed offset : Nat) : List (List Char) → Reader
  | [] => { unread := [], passed, offset, held := none, warnings }
  | line :: rest =>
    let behind := offset + byteLength line
    match CodeLine.ofPhysical? (passed + 1) offset line with
    | some l => { unread := rest, passed := passed + 1, offset := behind, held := some l, warnings }
    | none => seek warnings (passed + 1) behind rest

/-- A reader at the start of a unit. -/
def ofSource (source : String) : Reader :=
  seek [] 0 0 (lines source.toList)

/-- Whether another line can be read. -/
def hasMore (r : Reader) : Bool :=
  r.held.isSome

/-- Reads the next line, if there is one. -/
def next? (r : Reader) : Option (Except SyntaxError (Located Instruction) × Reader) :=
  match r.held with
  | none => none
  | some l =>
    let reading := l.read
    some (reading.result, seek (r.warnings ++ reading.warnings) r.passed r.offset r.unread)

/-- Reads the next line; at the end this is a misuse, and the reader stays as it is. -/
def advance (r : Reader) : Except Error (Located Instruction) × Reader :=
  match r.next? with
  | none => (.error (.misuse .advancePastEnd), r)
  | some (result, r') => (result.mapError .source, r')

/-- Takes the warnings met since they were last taken, oldest first. -/
def takeWarnings (r : Reader) : List Diagnostic × Reader :=
  (r.warnings, { r with warnings := [] })

end Reader

end HackVM.Source

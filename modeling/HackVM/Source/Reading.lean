import HackVM.Diagnostic
import HackVM.Instruction
import HackVM.Source.CodeLine
import HackVM.Text.Lowercase

/-!
# Reading a code line

A code line gives an instruction or a syntax error, and at most one warning. The command is found by
the lowercase form of the first word; all other words are taken as they stand. Commands with too
many words fall in two groups: operators, `push` and `pop` refuse them, the others ignore them and
warn. The warning depends on the number of words alone, so it is given also when the line fails for
another reason.
-/

namespace HackVM.Source

open Text

/-- A syntax error at a word, built from the word's text. -/
def Token.fault (t : Token) (kind : String → SyntaxFault) : SyntaxError :=
  ⟨kind t.text, t.span⟩

/-- The number that a word spells, if it is one and at most `limit`. -/
def Token.integer (t : Token) (limit : Nat) : Except SyntaxError Word :=
  match Decimal.read? t.text.toList with
  | some n => if n ≤ limit then .ok (BitVec.ofNat 16 n) else .error (t.fault .malformedInteger)
  | none => .error (t.fault .malformedInteger)

/-- The segment that a word names. -/
def Token.segment (t : Token) : Except SyntaxError Segment :=
  match Segment.ofName? t.text with
  | some segment => .ok segment
  | none => .error (t.fault .unknownSegment)

namespace CodeLine

/-- The line as a whole lacks words. -/
def missing (l : CodeLine) : SyntaxError :=
  ⟨.missingArguments, l.span⟩

/-- The segment and index of a `push` or `pop`, with the word that names the segment. -/
def transfer (l : CodeLine) : Except SyntaxError (Token × Segment × Word) :=
  match l.operands with
  | [segment, index] => do
    let s ← segment.segment
    let n ← index.integer s.maxIndex
    .ok (segment, s, n)
  | _ :: _ :: extra :: _ => .error (extra.fault .unknownToken)
  | _ => .error l.missing

/-- The name that a branch command gives. -/
def target (l : CodeLine) : Except SyntaxError String :=
  match l.operands with
  | name :: _ => .ok name.text
  | [] => .error l.missing

/-- The name and count that a function command gives. -/
def signature (l : CodeLine) : Except SyntaxError (String × Word) :=
  match l.operands with
  | name :: count :: _ => do
    let n ← count.integer Word.maxLoadable
    .ok (name.text, n)
  | _ => .error l.missing

/-- The instruction of a line whose first word is the given keyword. -/
def instruction (l : CodeLine) : Keyword → Except SyntaxError Instruction
  | .operator op =>
    match l.operands with
    | [] => .ok (.arithmetic op)
    | extra :: _ => .error (extra.fault .unknownToken)
  | .push => do
    let (_, s, n) ← l.transfer
    .ok (.push s n)
  | .pop => do
    let (word, s, n) ← l.transfer
    if s = .constant then .error ⟨.popConstant, word.span⟩ else .ok (.pop s n)
  | .label => .label <$> l.target
  | .goto => .goto <$> l.target
  | .ifGoto => .ifGoto <$> l.target
  | .function => do
    let (name, n) ← l.signature
    .ok (.function name n)
  | .call => do
    let (name, n) ← l.signature
    .ok (.call name n)
  | .ret => .ok .ret

/-- The words of a line that its command does not look at. -/
def ignored (l : CodeLine) : Keyword → List Token
  | .label | .goto | .ifGoto => l.operands.drop 1
  | .function | .call => l.operands.drop 2
  | .ret => l.operands
  | .operator _ | .push | .pop => []

end CodeLine

/-- The warning for the words that a command ignores, if there are any. -/
def ignoredWarning? (keyword : String) (words : List Token) : Option Diagnostic :=
  match words.head?, words.getLast? with
  | some first, some last =>
    let span := first.span.merge last.span
    some ((Diagnostic.warning
      ("ignoring trailing text after `" ++ keyword ++ "` (line " ++
        Decimal.text span.line.toNat ++ ")")
      span).withNote "extra operands have no effect")
  | _, _ => none

/-- What a code line reads as. -/
structure Reading where
  result : Except SyntaxError (Located Instruction)
  warnings : List Diagnostic

/-- Reads a code line. -/
def CodeLine.read (l : CodeLine) : Reading :=
  let keyword := lowercase l.head.text
  match Keyword.ofText? keyword with
  | none => ⟨.error ⟨.notACommand keyword, l.head.span⟩, []⟩
  | some k =>
    ⟨(l.instruction k).map fun i => ⟨i, l.span⟩, (ignoredWarning? keyword (l.ignored k)).toList⟩

/-- What every code line of a unit reads as; an error in one line does not touch the others. -/
def readings (source : String) : List Reading :=
  (codeLines source).map CodeLine.read

/-- The instructions of a unit, or the error of its first bad line. -/
def parse (source : String) : Except SyntaxError (List (Located Instruction)) :=
  (readings source).mapM Reading.result

end HackVM.Source

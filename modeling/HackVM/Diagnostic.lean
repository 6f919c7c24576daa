import HackVM.Error
import HackVM.Word

/-!
# Diagnostics

What a reader of the output is told about a place in the source: a message, the place, notes, and at
most one help line. A syntax error has exactly one diagnostic (`SyntaxError.diagnostic`); no other
failure has any.
-/

namespace HackVM

open Text

/-- How bad a finding is. -/
inductive Severity where
  | error
  | warning
  deriving DecidableEq, Repr

/-- A finding about a place in the source. -/
structure Diagnostic where
  severity : Severity
  message : String
  span : Span
  notes : List String := []
  help : Option String := none
  deriving DecidableEq, Repr

namespace Diagnostic

/-- An error without notes or help. -/
def error (message : String) (span : Span) : Diagnostic :=
  { severity := .error, message, span }

/-- A warning without notes or help. -/
def warning (message : String) (span : Span) : Diagnostic :=
  { severity := .warning, message, span }

/-- Adds a note after the others. -/
def withNote (d : Diagnostic) (note : String) : Diagnostic :=
  { d with notes := d.notes ++ [note] }

/-- Sets the help line, in place of any before it. -/
def withHelp (d : Diagnostic) (help : String) : Diagnostic :=
  { d with help := some help }

end Diagnostic

/-- A syntax error for the reader, with advice by the kind of fault. -/
def SyntaxError.diagnostic (e : SyntaxError) : Diagnostic :=
  let d := Diagnostic.error e.message e.span
  match e.fault with
  | .unknownToken _ => d
  | .missingArguments =>
    d.withHelp "push/pop take a segment and an index; function/call take a name and a count"
  | .notACommand _ =>
    d.withHelp ("commands are: add sub neg eq gt lt and or not, push, pop, " ++
      "label, goto, if-goto, function, call, return")
  | .unknownSegment _ =>
    d.withHelp "segments are: constant local argument this that pointer temp static"
  | .popConstant => d.withNote "the constant segment has no storage"
  | .malformedInteger _ =>
    d.withNote ("expected a decimal integer between 0 and " ++ Decimal.text Word.maxLoadable ++
      " (" ++ Decimal.text Word.maxUnsigned ++ " for static)")

/-- The diagnostic of a failure that lies in the source. -/
def Error.diagnostic? : Error → Option Diagnostic
  | .source e => some e.diagnostic
  | _ => none

end HackVM

import HackVM.Span
import HackVM.Text.Decimal

/-!
# What can go wrong

Every failure is a cause. The wording stands in one `message` function per kind of cause. Only a
syntax error has a place in the source (`Error.span?`).
-/

namespace HackVM

open Text

/-- What is wrong with a source line. -/
inductive SyntaxFault where
  | unknownToken (token : String)
  | missingArguments
  | notACommand (keyword : String)
  | unknownSegment (name : String)
  | popConstant
  | malformedInteger (token : String)
  deriving DecidableEq, Repr

/-- The wording of a fault. -/
def SyntaxFault.message : SyntaxFault → String
  | .unknownToken token => "unknown token \"" ++ token ++ "\""
  | .missingArguments => "command missing arguments"
  | .notACommand keyword => "\"" ++ keyword ++ "\" is not a command"
  | .unknownSegment name => "unknown segment \"" ++ name ++ "\""
  | .popConstant => "cannot pop into the constant segment"
  | .malformedInteger token => "malformed integer \"" ++ token ++ "\""

/-- A fault of a source line and the part of the line it lies in. -/
structure SyntaxError where
  fault : SyntaxFault
  span : Span
  deriving DecidableEq, Repr

/-- The wording of a syntax error, with its line. -/
def SyntaxError.message (e : SyntaxError) : String :=
  "syntax error (line " ++ Decimal.text e.span.line.toNat ++ "): " ++ e.fault.message

/-- An operation called where its contract forbids it. -/
inductive Misuse where
  /-- A reader was asked for an instruction after its last one. -/
  | advancePastEnd
  /-- The constant segment has no cell to pop into. -/
  | popConstant
  /-- A static cell is named after its unit, and there was none. -/
  | staticWithoutUnit (index : Nat)
  /-- The bootstrap was asked for after other code. -/
  | lateBootstrap
  deriving DecidableEq, Repr

/-- The wording of a misuse. -/
def Misuse.message : Misuse → String
  | .advancePastEnd => "advance past end of input"
  | .popConstant => "pop into the constant segment"
  | .staticWithoutUnit index =>
    "static " ++ Decimal.text index ++ " used before a unit name was set"
  | .lateBootstrap => "bootstrap must be the first code of a run"

/-- Why a file cannot be read or written. -/
inductive FileFault where
  | notFound
  /-- Something on the way is a file. -/
  | notADirectory
  | isADirectory
  /-- A part of the path, or the path as a whole, has too many bytes. -/
  | nameTooLong
  /-- The path holds the character with code point 0. -/
  | nullInName
  /-- The bytes of the file are not UTF-8. -/
  | notText
  deriving DecidableEq, Repr

/-- The wording of a fault, as the operating system and the decoder put it. -/
def FileFault.message : FileFault → String
  | .notFound => "No such file or directory (os error 2)"
  | .notADirectory => "Not a directory (os error 20)"
  | .isADirectory => "Is a directory (os error 21)"
  | .nameTooLong => "File name too long (os error 36)"
  | .nullInName => "file name contained an unexpected NUL byte"
  | .notText => "stream did not contain valid UTF-8"

/-- Why a sink does not take what is written to it. -/
inductive SinkFault where
  /-- The sink is full and says so. -/
  | full
  /-- The sink is full and takes no more bytes, without saying so. -/
  | stalled
  | flushFailed
  deriving DecidableEq, Repr

/-- The wording of a fault. -/
def SinkFault.message : SinkFault → String
  | .full => "disk full"
  | .stalled => "failed to write whole buffer"
  | .flushFailed => "flush failed"

/-- Any failure of a run. -/
inductive Error where
  /-- A source line is wrong. -/
  | source (e : SyntaxError)
  /-- A file cannot be read or written. -/
  | cannotOpen (path : String) (fault : FileFault)
  /-- A sink does not take the code. -/
  | cannotWrite (fault : SinkFault)
  /-- There is no source file at a path. -/
  | noInputs (path : String)
  | misuse (m : Misuse)
  deriving DecidableEq, Repr

namespace Error

/-- The wording of a failure. -/
def message : Error → String
  | .source e => e.message
  | .cannotOpen path fault => "cannot open '" ++ path ++ "': " ++ fault.message
  | .cannotWrite fault => "I/O error: " ++ fault.message
  | .noInputs path => "no .vm input found at '" ++ path ++ "'"
  | .misuse m => "internal misuse: " ++ m.message

/-- Where in the source the failure lies, if it lies there. -/
def span? : Error → Option Span
  | .source e => some e.span
  | _ => none

end Error

end HackVM

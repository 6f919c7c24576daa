import HackVM.Build
import HackVM.CommandLine.Arguments

/-!
# Sessions

What the program does with a command line, given the files it sees: what it tells, the files it
leaves, and the exit code, which is 0 for success, 1 for a run that failed and 2 for arguments that
make no sense. A failure is told once: by its diagnostic if it lies in the source, by a status line
otherwise.

How arguments are read (`parse`) and how the setting of the journal is (`LogLevel.ofText?`) is not
the program's own: both follow the conventions of command lines and of journals at large. What a
command does once it is read, at any level of the journal, is `performAt`.
-/

namespace HackVM.CommandLine

open Text

/-- What goes to the standard output. -/
inductive Answer where
  | nothing
  | help
  | version
  deriving DecidableEq, Repr

/-- How the program is called, and which version of it this is. -/
def versionText : String :=
  "vmtranslate 0.1.0\n"

/-- How the program is used. -/
def usageText : String :=
  "Stack machine code to Hack assembly\n\n" ++
  "Usage: vmtranslate [-v]... <COMMAND>\n\n" ++
  "Commands:\n" ++
  "  build <INPUT>  compile a .vm file or a directory of .vm files to one .asm file\n" ++
  "  check <INPUT>  read .vm input and tell its errors without writing assembly\n" ++
  "  help           show this text\n\n" ++
  "Options of build:\n" ++
  "  -o, --output <PATH>   output file (default: <INPUT>.asm, or <DIR>/<DIR>.asm)\n" ++
  "  --no-bootstrap        leave out the bootstrap\n" ++
  "  --annotate            write each instruction as a comment before its code\n" ++
  "  --entry <NAME>        function that the bootstrap calls (default: Sys.init)\n" ++
  "  --stack-base <N>      initial stack pointer (default: 256)\n\n" ++
  "Options everywhere:\n" ++
  "  -v, --verbose  show more of the journal (-v info, -vv debug, -vvv trace)\n" ++
  "  -h, --help     show this text\n" ++
  "  -V, --version  show the version (before a command)\n"

/-- The text of an answer. -/
def Answer.text : Answer → String
  | .nothing => ""
  | .help => usageText
  | .version => versionText

/-- What came of a command line. -/
structure Session where
  exitCode : Nat
  answer : Answer := .nothing
  /-- What is to be shown. -/
  reports : List Report := []
  /-- The files afterwards. -/
  tree : FileTree

/-- The status line of a failure that no diagnostic tells. -/
def failureStatus (e : Error) : List Report :=
  if e.span?.isNone then [.status ("error: " ++ e.message)] else []

/-- The status line of a build. -/
def buildStatus (s : BuildSummary) : Report :=
  .status ("Translated " ++ Decimal.text s.units ++ " unit(s), " ++ Decimal.text s.instructions ++
    " instructions -> " ++ s.output.text)

/-- The status line of a check. -/
def checkStatus (input : Path) (s : CheckSummary) : Report :=
  .status ("OK: " ++ input.text ++ " (" ++ Decimal.text s.units ++ " unit(s), " ++
    Decimal.text s.instructions ++ " instructions)")

/-- Ends a session with what came of a command, and the files as it left them. -/
def conclude {α : Type} (work : FileWork α) (status : α → Report) : Session :=
  match work.result with
  | .error e => { exitCode := 1, reports := work.reports ++ failureStatus e, tree := work.tree }
  | .ok a => { exitCode := 0, reports := work.reports ++ [status a], tree := work.tree }

/-- Carries out a command. -/
def perform (t : FileTree) : Command → Session
  | .build input output options =>
    conclude (build t input (output.getD (defaultOutput t input)) options) buildStatus
  | .check input => conclude (check t input) (checkStatus input)

/-- Carries out a command and shows the journal up to a level. -/
def performAt (level : LogLevel) (t : FileTree) (command : Command) : Session :=
  let s := perform t command
  { s with reports := s.reports.filter (Report.shownAt level) }

/-- The level of the journal: by the verbosity, or by a setting from outside if there is none. -/
def journalLevel (verbosity : Nat) (setting : Option String) : LogLevel :=
  match verbosity with
  | 0 => (setting.bind LogLevel.ofText?).getD .warn
  | 1 => .info
  | 2 => .debug
  | _ => .trace

/-- Runs a command line. -/
def session (t : FileTree) (setting : Option String) (args : List String) : Session :=
  match parse args with
  | .help => { exitCode := 0, answer := .help, tree := t }
  | .version => { exitCode := 0, answer := .version, tree := t }
  | .misused => { exitCode := 2, tree := t }
  | .run command verbosity => performAt (journalLevel verbosity setting) t command

end HackVM.CommandLine

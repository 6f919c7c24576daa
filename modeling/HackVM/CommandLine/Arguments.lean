import HackVM.Files.Path
import HackVM.Program.Options
import HackVM.Text.Decimal

/-!
# Arguments of the command line

Arguments are taken one by one, from left to right, and the first that settles the matter wins: a
wrong argument before a request for help is an error, and after it is never looked at. Options and
the input may stand in any order; `--` ends the options. An option takes its value behind `=`, or
from the next argument, which then must not look like an option itself. A short option also takes
the rest of its own argument.
-/

namespace HackVM.CommandLine

open Text

/-- What the program is asked to do with files. -/
inductive Command where
  | build (input : Path) (output : Option Path) (options : Options)
  | check (input : Path)
  deriving DecidableEq, Repr

/-- What the command line asks for. -/
inductive Request where
  | help
  | version
  /-- The arguments make no sense. -/
  | misused
  | run (command : Command) (verbosity : Nat)
  deriving DecidableEq, Repr

/-- Why arguments are not read to their end. -/
inductive Early where
  | help
  | misused
  deriving DecidableEq, Repr

/-- What the command line asks for then. -/
def Early.request : Early → Request
  | .help => .help
  | .misused => .misused

/-! ### Options of the commands -/

/-- The options that take a value. -/
inductive Setting where
  | output | entry | stackBase
  deriving DecidableEq, Repr

/-- The options that take none. -/
inductive Switch where
  | noBootstrap | annotate | verbose | help
  deriving DecidableEq, Repr

/-- An option of either kind. -/
inductive Named where
  | setting (s : Setting)
  | switch (s : Switch)
  deriving DecidableEq, Repr

/-- The commands that take options. -/
inductive Subcommand where
  | build | check
  deriving DecidableEq, Repr

namespace Subcommand

/-- The options by their long names. -/
def long? : Subcommand → String → Option Named
  | _, "verbose" => some (.switch .verbose)
  | _, "help" => some (.switch .help)
  | .build, "output" => some (.setting .output)
  | .build, "entry" => some (.setting .entry)
  | .build, "stack-base" => some (.setting .stackBase)
  | .build, "no-bootstrap" => some (.switch .noBootstrap)
  | .build, "annotate" => some (.switch .annotate)
  | _, _ => none

/-- The options by their letters. -/
def short? : Subcommand → Char → Option Named
  | _, 'v' => some (.switch .verbose)
  | _, 'h' => some (.switch .help)
  | .build, 'o' => some (.setting .output)
  | _, _ => none

end Subcommand

/-! ### Collecting -/

/-- The arguments of a command as far as they were read. -/
structure Draft where
  input : Option Path := none
  output : Option Path := none
  entry : Option String := none
  stackBase : Option Word := none
  noBootstrap : Bool := false
  annotate : Bool := false
  verbosity : Nat := 0
  deriving DecidableEq, Repr

namespace Draft

/-- Takes the input. There is one, and it is not empty. -/
def takeInput (d : Draft) (value : String) : Except Early Draft :=
  if d.input.isSome || value == "" then .error .misused else .ok { d with input := some ⟨value⟩ }

/-- The stack base that a value spells. -/
def stackBaseOf? (value : String) : Option Word :=
  match Decimal.readSigned? value.toList with
  | some n => if 0 ≤ n ∧ n ≤ Word.maxUnsigned then some (BitVec.ofInt 16 n) else none
  | none => none

/-- Takes an option with its value. Each may be given once. -/
def takeSetting (d : Draft) (s : Setting) (value : String) : Except Early Draft :=
  match s with
  | .output =>
    if d.output.isSome || value == "" then .error .misused
    else .ok { d with output := some ⟨value⟩ }
  | .entry => if d.entry.isSome then .error .misused else .ok { d with entry := some value }
  | .stackBase =>
    match d.stackBase, stackBaseOf? value with
    | none, some base => .ok { d with stackBase := some base }
    | _, _ => .error .misused

/-- Takes a switch. Only `verbose` may be given more than once. -/
def takeSwitch (d : Draft) : Switch → Except Early Draft
  | .noBootstrap => if d.noBootstrap then .error .misused else .ok { d with noBootstrap := true }
  | .annotate => if d.annotate then .error .misused else .ok { d with annotate := true }
  | .verbose => .ok { d with verbosity := d.verbosity + 1 }
  | .help => .error .help

/-- The command that the arguments make up, if there is an input. -/
def command? (d : Draft) (c : Subcommand) : Option Command :=
  d.input.map fun input =>
    match c with
    | .check => .check input
    | .build =>
      let standard : Options := {}
      .build input d.output
        { bootstrap := !d.noBootstrap
          annotate := d.annotate
          entry := d.entry.getD standard.entry
          stackBase := d.stackBase.getD standard.stackBase }

end Draft

/-! ### Single arguments -/

/-- The form of an argument. -/
inductive Form where
  /-- The argument `--`. -/
  | terminator
  /-- A long option, by its name, and the value behind `=`. -/
  | long (name : String) (value : Option String)
  /-- Letters behind one dash. -/
  | letters (cs : List Char)
  | plain
  deriving DecidableEq, Repr

/-- The form of an argument. A single dash is plain. -/
def formOf (arg : String) : Form :=
  match arg.toList with
  | ['-'] => .plain
  | ['-', '-'] => .terminator
  | '-' :: '-' :: cs =>
    match cs.dropWhile (· != '=') with
    | [] => .long (String.ofList cs) none
    | _ :: value => .long (String.ofList (cs.takeWhile (· != '='))) (some (String.ofList value))
  | '-' :: cs => .letters cs
  | _ => .plain

/-- Takes letters behind one dash. A setting takes the letters behind it as its value; without any
it waits for the next argument. -/
def takeLetters (c : Subcommand) (d : Draft) : List Char → Except Early (Draft × Option Setting)
  | [] => .ok (d, none)
  | letter :: rest =>
    match c.short? letter with
    | none => .error .misused
    | some (.switch s) => do takeLetters c (← d.takeSwitch s) rest
    | some (.setting s) =>
      match rest with
      | [] => .ok (d, some s)
      | '=' :: value => do .ok (← d.takeSetting s (String.ofList value), none)
      | value => do .ok (← d.takeSetting s (String.ofList value), none)

/-- Takes a long option. -/
def takeLong (c : Subcommand) (d : Draft) (name : String) (value : Option String) :
    Except Early (Draft × Option Setting) :=
  match c.long? name, value with
  | some (.switch s), none => do .ok (← d.takeSwitch s, none)
  | some (.setting s), some value => do .ok (← d.takeSetting s value, none)
  | some (.setting s), none => .ok (d, some s)
  | _, _ => .error .misused

/-! ### Whole command lines -/

/-- Takes the arguments of a command, while a setting may be waiting for its value. -/
def takeArguments (c : Subcommand) (d : Draft) (waiting : Option Setting) :
    List String → Except Early Draft
  | [] => if waiting.isSome then .error .misused else .ok d
  | arg :: rest =>
    match waiting, formOf arg with
    | some s, .plain => do takeArguments c (← d.takeSetting s arg) none rest
    | some _, _ => .error .misused
    | none, .plain => do takeArguments c (← d.takeInput arg) none rest
    | none, .terminator => rest.foldlM Draft.takeInput d
    | none, .long name value => do
      let (d, waiting) ← takeLong c d name value
      takeArguments c d waiting rest
    | none, .letters cs => do
      let (d, waiting) ← takeLetters c d cs
      takeArguments c d waiting rest

/-- A command with its arguments. A verbosity given behind the command counts instead of the one
before it. -/
def parseCommand (c : Subcommand) (verbosity : Nat) (args : List String) : Request :=
  match takeArguments c {} none args with
  | .error e => e.request
  | .ok d =>
    match d.command? c with
    | none => .misused
    | some command => .run command (if d.verbosity = 0 then verbosity else d.verbosity)

/-- What `help` was asked about: nothing, or one of the commands. -/
def parseHelp : List String → Request
  | [] | ["build"] | ["check"] | ["help"] => .help
  | _ => .misused

/-- Letters behind one dash before the command: either they settle the matter, or they raise the
verbosity. -/
def topLetters (verbosity : Nat) : List Char → Except Request Nat
  | [] => .ok verbosity
  | 'v' :: rest => topLetters (verbosity + 1) rest
  | 'h' :: _ => .error .help
  | 'V' :: _ => .error .version
  | _ => .error .misused

/-- Reads a command line, while options before the command may raise the verbosity. -/
def parseFrom (verbosity : Nat) : List String → Request
  | [] => .misused
  | "build" :: rest => parseCommand .build verbosity rest
  | "check" :: rest => parseCommand .check verbosity rest
  | "help" :: rest => parseHelp rest
  | arg :: rest =>
    match formOf arg with
    | .long "help" none => .help
    | .long "version" none => .version
    | .long "verbose" none => parseFrom (verbosity + 1) rest
    | .letters cs =>
      match topLetters verbosity cs with
      | .error request => request
      | .ok verbosity => parseFrom verbosity rest
    | _ => .misused

/-- Reads a command line. -/
def parse (args : List String) : Request :=
  parseFrom 0 args

end HackVM.CommandLine

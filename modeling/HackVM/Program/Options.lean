import HackVM.Word

/-!
# Options of a run
-/

namespace HackVM

/-- What can be chosen about a run. -/
structure Options where
  /-- Start with code that sets the stack pointer and calls the entry function. -/
  bootstrap : Bool := true
  /-- Write each instruction as a comment before its code. -/
  annotate : Bool := false
  /-- The function that the bootstrap calls. -/
  entry : String := "Sys.init"
  /-- Where the bootstrap puts the stack. -/
  stackBase : Word := 256
  deriving DecidableEq, Repr

/-- Options for a piece of a program that has no entry function. -/
def Options.withoutBootstrap : Options :=
  { bootstrap := false }

end HackVM

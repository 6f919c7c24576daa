/-!
# Machine words

The Hack machine computes on 16-bit words that wrap. The same words index segments, count locals and
arguments, and name RAM cells, so one type serves the source language and the machine.
-/

namespace HackVM

/-- A 16-bit machine word. -/
abbrev Word := BitVec 16

namespace Word

/-- The largest number that an address instruction of the machine can load: 15 bits. -/
def maxLoadable : Nat := 0x7FFF

/-- The largest number that fits a word. -/
def maxUnsigned : Nat := 0xFFFF

end Word

end HackVM

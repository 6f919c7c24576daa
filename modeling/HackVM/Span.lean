/-!
# Spans

A span says where something stands in a unit's text: its 1-based line, and the bytes from `start` up
to but not including `stop`. All three are kept in 32 bits.
-/

namespace HackVM

/-- A line and a range of bytes. -/
structure Span where
  line : UInt32
  start : UInt32
  stop : UInt32
  deriving DecidableEq, Repr, Inhabited

namespace Span

/-- The span of a line number and two byte offsets, each cut to 32 bits. -/
def ofNat (line start stop : Nat) : Span :=
  ⟨line.toUInt32, start.toUInt32, stop.toUInt32⟩

/-- The smallest span that covers both. Of two lines the earlier one is named. -/
def merge (s t : Span) : Span :=
  ⟨min s.line t.line, min s.start t.start, max s.stop t.stop⟩

end Span

/-- A value with the span it came from. -/
structure Located (α : Type) where
  value : α
  span : Span
  deriving DecidableEq, Repr

end HackVM

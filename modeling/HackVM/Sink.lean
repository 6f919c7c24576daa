import HackVM.Error

/-!
# Sinks

Where bytes go. A sink may hold only so many bytes: it then takes what fits and fails for the rest,
in one of two ways. It never gives back what it took, and it never takes bytes out of order, so what
it holds is always the beginning of what was written to it.
-/

namespace HackVM

/-- A sink with what it holds and how it behaves. -/
structure Sink where
  /-- The bytes taken so far. -/
  accepted : ByteArray := .empty
  /-- How many bytes fit, if there is a limit. -/
  limit : Option Nat := none
  /-- Whether a full sink takes nothing in silence, rather than failing. -/
  stalls : Bool := false
  flushFails : Bool := false

namespace Sink

/-- How a full sink fails. -/
def fullFault (s : Sink) : SinkFault :=
  if s.stalls then .stalled else .full

/-- Writes bytes: all of them, or those that fit. -/
def write (s : Sink) (bytes : ByteArray) : Except SinkFault Unit × Sink :=
  match s.limit with
  | none => (.ok (), { s with accepted := s.accepted ++ bytes })
  | some limit =>
    let room := limit - s.accepted.size
    if bytes.size ≤ room then (.ok (), { s with accepted := s.accepted ++ bytes })
    else (.error s.fullFault, { s with accepted := s.accepted ++ bytes.extract 0 room })

/-- Makes sure that everything taken has arrived. -/
def flush (s : Sink) : Except SinkFault Unit :=
  if s.flushFails then .error .flushFailed else .ok ()

end Sink

end HackVM

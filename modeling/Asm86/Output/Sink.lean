/-
# Asm86.Output.Sink -- where encoded bytes go

A sink takes bytes in order.  It may have a capacity; of bytes that do not fit it keeps
those that do and reports a fault.  What a sink holds is always a beginning of all that
it was given.
-/

namespace Asm86.Output

set_option autoImplicit false

/-- How a sink without room fails. -/
inductive SinkFault where
  | tapeFull
  | bufferFull
  deriving DecidableEq, Repr

def SinkFault.message : SinkFault → String
  | .tapeFull => "tape full"
  | .bufferFull => "failed to write whole buffer"

structure Sink where
  bytes : Array UInt8 := #[]
  capacity : Option Nat := none
  whenFull : SinkFault := .tapeFull
  deriving DecidableEq, Repr

namespace Sink

def unlimited : Sink := {}

/-- A tape of so many bytes. -/
def tape (capacity : Nat) : Sink := { capacity := some capacity, whenFull := .tapeFull }

/-- A buffer of so many bytes. -/
def buffer (capacity : Nat) : Sink := { capacity := some capacity, whenFull := .bufferFull }

/-- How many of `wanted` more bytes there is room for. -/
def room (s : Sink) (wanted : Nat) : Nat :=
  match s.capacity with
  | none => wanted
  | some capacity => min wanted (capacity - s.bytes.size)

/-- Add bytes; the fault is there when not all of them fitted. -/
def emit (s : Sink) (bytes : List UInt8) : Sink × Option SinkFault :=
  let room := s.room bytes.length
  let fault := if room < bytes.length then some s.whenFull else none
  ({ s with bytes := s.bytes ++ bytes.take room }, fault)

end Sink

end Asm86.Output

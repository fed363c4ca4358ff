/-
Writing bytes.

A sink keeps what is written to it. It may have room for a limited number of bytes, and flushing it
may fail. A write that finds too little room keeps what fits and then fails.
-/
import WordMachine.Action

namespace WordMachine

/-- A stream that is being written. -/
structure Sink where
  written : Array UInt8 := #[]
  /-- How many bytes there is room for in all, if that is limited. -/
  limit : Option Nat := none
  /-- The text of the failure of a write, unless it is the usual one. -/
  writeFailure : Option String := none
  /-- The text of the failure of every flush, if flushing fails. -/
  flushFailure : Option String := none
  deriving DecidableEq, Repr, Inhabited

namespace Sink

/-- Whether there is room for some more bytes. -/
def hasRoom (s : Sink) (count : Nat) : Bool :=
  match s.limit with
  | none => true
  | some limit => s.written.size + count ≤ limit || count = 0

/-- How many more bytes there is room for, of those wanted. -/
def room (s : Sink) (wanted : Nat) : Nat :=
  match s.limit with
  | none => wanted
  | some limit => min wanted (limit - s.written.size)

/-- The text of the failure of a write. -/
def writeText (s : Sink) : String := s.writeFailure.getD "failed to write whole buffer"

def write (bytes : Bytes) : Action Sink Unit := fun s =>
  if s.hasRoom bytes.length then
    .ok () { s with written := s.written ++ bytes }
  else
    let kept := bytes.take (s.room bytes.length)
    .error (.stream s.writeText) { s with written := s.written ++ kept }

def flush : Action Sink Unit := fun s =>
  match s.flushFailure with
  | some text => .error (.stream text) s
  | none => .ok () s

end Sink

end WordMachine

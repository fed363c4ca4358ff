/-
Capabilities.

A capability is a right that the host grants to a program: to use strings, to use
single-precision numbers, to read input. A set of them is written in an image as a bit mask.

* `Capability.bit` is the bit of a capability in a mask.
* `CapabilitySet.mask` and `CapabilitySet.ofMask` go between sets and masks; bits that name no
  capability are dropped.
-/
import WordMachine.Word

namespace WordMachine

/-- A right that the host may grant to a program. -/
inductive Capability where
  | strings
  | floats
  | input
  deriving DecidableEq, Repr

namespace Capability

/-- The capabilities in the order in which they are listed. -/
def all : List Capability := [strings, floats, input]

/-- The bit that stands for a capability in a mask. -/
def bit : Capability → UInt8
  | strings => 1
  | floats => 2
  | input => 4

def name : Capability → String
  | strings => "strings"
  | floats => "floats"
  | input => "input"

end Capability

/-- A set of capabilities, one truth value for each. -/
structure CapabilitySet where
  strings : Bool := false
  floats : Bool := false
  input : Bool := false
  deriving DecidableEq, Repr

namespace CapabilitySet

/-- No capability at all. -/
def empty : CapabilitySet := {}

/-- Every capability. -/
def all : CapabilitySet := ⟨true, true, true⟩

/-- What a program needs that prints texts and does no more. -/
def outputOnly : CapabilitySet := ⟨true, false, false⟩

def contains (s : CapabilitySet) : Capability → Bool
  | .strings => s.strings
  | .floats => s.floats
  | .input => s.input

/-- The set `s` with membership of `c` fixed to `b`. -/
def put (s : CapabilitySet) (b : Bool) : Capability → CapabilitySet
  | .strings => { s with strings := b }
  | .floats => { s with floats := b }
  | .input => { s with input := b }

def insert (s : CapabilitySet) (c : Capability) : CapabilitySet := s.put true c

def erase (s : CapabilitySet) (c : Capability) : CapabilitySet := s.put false c

/-- The members of a set, in listing order. -/
def toList (s : CapabilitySet) : List Capability := Capability.all.filter s.contains

/-- The set of the capabilities in a list. -/
def ofList (cs : List Capability) : CapabilitySet := cs.foldl insert empty

/-- The bit mask of a set. -/
def mask (s : CapabilitySet) : UInt8 :=
  s.toList.foldl (fun m c => m ||| c.bit) 0

/-- The set that a bit mask stands for; bits that name no capability are dropped. -/
def ofMask (m : UInt8) : CapabilitySet where
  strings := m &&& Capability.strings.bit != 0
  floats := m &&& Capability.floats.bit != 0
  input := m &&& Capability.input.bit != 0

@[simp]
theorem contains_put_self (s : CapabilitySet) (b : Bool) (c : Capability) :
    (s.put b c).contains c = b := by
  cases c <;> rfl

theorem contains_put_of_ne (s : CapabilitySet) (b : Bool) {c d : Capability} (h : c ≠ d) :
    (s.put b c).contains d = s.contains d := by
  cases c <;> cases d <;> first | rfl | exact absurd rfl h

@[simp]
theorem ofMask_mask (s : CapabilitySet) : ofMask s.mask = s := by
  obtain ⟨_ | _, _ | _, _ | _⟩ := s <;> rfl

end CapabilitySet

end WordMachine

/-
The life of a call.

A call runs through nine phases in a fixed order: its three frame cells are laid down, the body
runs, a result is staged, the caller's frame is restored, the stack is unwound and control moves
on. `Phase.next?` is the one move that a phase allows.
-/

namespace WordMachine

/-- How far a call has come. -/
inductive Phase where
  | idle
  | argumentPushed
  | returnAddressPushed
  | savedFramePushed
  | inBody
  | valueStaged
  | frameRestored
  | stackUnwound
  | dispatched
  deriving DecidableEq, Repr

namespace Phase

/-- The only phase that may follow this one. -/
def next? : Phase → Option Phase
  | idle => some argumentPushed
  | argumentPushed => some returnAddressPushed
  | returnAddressPushed => some savedFramePushed
  | savedFramePushed => some inBody
  | inBody => some valueStaged
  | valueStaged => some frameRestored
  | frameRestored => some stackUnwound
  | stackUnwound => some dispatched
  | dispatched => none

/-- The number of moves from the first phase to this one. -/
def rank : Phase → Nat
  | idle => 0
  | argumentPushed => 1
  | returnAddressPushed => 2
  | savedFramePushed => 3
  | inBody => 4
  | valueStaged => 5
  | frameRestored => 6
  | stackUnwound => 7
  | dispatched => 8

/-- The name of a phase in messages. -/
def name : Phase → String
  | idle => "Idle"
  | argumentPushed => "ArgsPushed"
  | returnAddressPushed => "ReturnAddrPushed"
  | savedFramePushed => "OldFpPushed"
  | inBody => "InBody"
  | valueStaged => "ValueStaged"
  | frameRestored => "FpRestored"
  | stackUnwound => "StackUnwound"
  | dispatched => "Dispatched"

/-- A phase and at most `n` of those that follow it. -/
def follow : Nat → Phase → List Phase
  | 0, p => [p]
  | n + 1, p =>
    match p.next? with
    | some q => p :: follow n q
    | none => [p]

/-- A phase and all that follow it, in order. -/
def chain (p : Phase) : List Phase := follow (8 - p.rank) p

end Phase

end WordMachine

/-
Configurations.

A configuration fixes the sizes of the register file and of memory, the direction in which the
stack grows, the capabilities that the host grants, and optionally how many blocks may be
dispatched.

`Config.check` refuses sizes that words cannot address, registers before memory.
-/
import WordMachine.Fault

namespace WordMachine

/-- The direction in which the stack grows: up from the bottom of memory or down from its top. -/
inductive Growth where
  | upward
  | downward
  deriving DecidableEq, Repr, Inhabited

/-- The parameters of a machine. -/
structure Config where
  registers : Nat := 10000
  memory : Nat := 10000
  growth : Growth := .upward
  capabilities : CapabilitySet := .all
  /-- How many blocks may be dispatched, if there is a limit. -/
  stepLimit : Option UInt64 := none
  deriving DecidableEq, Repr

namespace Config

/-- A small machine that may only print. -/
def compact : Config :=
  { registers := 100, memory := 100, capabilities := .outputOnly }

/-- The most cells that a space can have: the largest word. -/
def maxCapacity : Nat := 2147483647

/-- Refuses spaces with more cells than words can address. -/
def check (c : Config) : Except Fault Unit :=
  if maxCapacity < c.registers then .error (.capacityTooLarge .register c.registers)
  else if maxCapacity < c.memory then .error (.capacityTooLarge .memory c.memory)
  else .ok ()

end Config

end WordMachine

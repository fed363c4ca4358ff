/-
Machines.

A machine is a world that a program runs in: its configuration and program, and what it remembers
between blocks. Memory is filled from the program's data before anything runs.

* `Machine.load` builds a machine, `Machine.reset` brings back what it built and leaves the console
  as it is.
-/
import WordMachine.Config
import WordMachine.Program
import WordMachine.World

namespace WordMachine

/-- A program in a world, with what is remembered between blocks. -/
structure Machine extends World where
  config : Config
  program : Program
  /-- The call that completed last. -/
  lastCall : Option CallRecord := none
  /-- How many calls of the host are in flight. -/
  hostCalls : Nat := 0
  /-- How many dispatches were counted, also refused ones. The counter wraps around. -/
  steps : UInt64 := 0
  halted : Bool := false
  deriving DecidableEq, Repr

namespace Machine

variable {α : Type}

/-- Runs an action on the world of a machine. -/
def onWorld (x : Action World α) : Action Machine α :=
  x.focus Machine.toWorld fun w m => { m with toWorld := w }

@[simp]
theorem onWorld_apply (x : Action World α) (m : Machine) :
    onWorld x m = Outcome.within (fun w => { m with toWorld := w }) (x m.toWorld) := rfl

/-- Runs an action on the store of a machine. -/
def onStore (x : Action Store α) : Action Machine α := onWorld (World.onStore x)

/-- Runs an action on the console of a machine. -/
def onConsole (x : Action Console α) : Action Machine α := onWorld (World.onConsole x)

/-- Puts data cells into memory, in order. -/
def seed : List DataCell → Action Store Unit
  | [] => return ()
  | cell :: cells => do
    Store.store cell.address cell.value
    seed cells

/-- A machine for a program, with its data in memory. -/
def load (config : Config) (program : Program) (console : Console) : Except Fault Machine :=
  match Store.ofConfig config with
  | .error f => .error f
  | .ok store =>
    match seed program.data store with
    | .error f _ => .error f
    | .ok () store => .ok { store, console, config, program }

/-- Brings the machine back to the state in which it was built. The console and the journal stay
as they are. -/
def reset : Action Machine Unit := do
  modify fun m =>
    { m with
      store := m.store.reset, lastCall := none, hostCalls := 0, steps := 0, halted := false }
  onStore (seed (← get).program.data)

end Machine

end WordMachine

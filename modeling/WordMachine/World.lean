/-
The store and what surrounds it.

A world is a store together with the console that intrinsics talk to and the journal of what
happened. The operations on frames are those of the store, with an event for each.
-/
import WordMachine.Console.Basic
import WordMachine.Frame.Protocol
import WordMachine.Journal

namespace WordMachine

/-- A store, the streams outside it, and the events so far. -/
structure World where
  store : Store
  console : Console
  journal : Array Event := #[]
  deriving DecidableEq, Repr, Inhabited

namespace World

variable {α : Type}

/-- Runs an action on the store. -/
def onStore (x : Action Store α) : Action World α :=
  x.focus World.store fun s w => { w with store := s }

/-- Runs an action on the console. -/
def onConsole (x : Action Console α) : Action World α :=
  x.focus World.console fun c w => { w with console := c }

@[simp]
theorem onStore_apply (x : Action Store α) (w : World) :
    onStore x w = Outcome.within (fun s => { w with store := s }) (x w.store) := rfl

@[simp]
theorem onConsole_apply (x : Action Console α) (w : World) :
    onConsole x w = Outcome.within (fun c => { w with console := c }) (x w.console) := rfl

/-- Notes an event, which may tell about the store. -/
def note (event : Store → Event) : Action World Unit := fun w =>
  .ok () { w with journal := w.journal.push (event w.store) }

/-- Enters a frame and notes it. -/
def enterFrame (argument returnAddress : Word) : Action World CallRecord := do
  let record ← onStore (Frame.enter argument returnAddress)
  note fun s => .frameEntered s.fp s.sp argument returnAddress
  return record

/-- A world together with the record of one of its calls. -/
structure Call where
  world : World
  record : CallRecord
  deriving DecidableEq, Repr, Inhabited

/-- Runs an action on the store and the record of a call. -/
def Call.onActivation (x : Action Frame.Activation α) : Action Call α :=
  x.focus (fun c => ⟨c.world.store, c.record⟩)
    fun a c => { world := { c.world with store := a.store }, record := a.record }

@[simp]
theorem Call.onActivation_apply (x : Action Frame.Activation α) (c : Call) :
    Call.onActivation x c =
      Outcome.within
        (fun a => { world := { c.world with store := a.store }, record := a.record })
        (x ⟨c.world.store, c.record⟩) := rfl

/-- Runs an action on the world of a call. -/
def Call.onWorld (x : Action World α) : Action Call α :=
  x.focus Call.world fun w c => { c with world := w }

@[simp]
theorem Call.onWorld_apply (x : Action World α) (c : Call) :
    Call.onWorld x c = Outcome.within (fun w => { c with world := w }) (x c.world) := rfl

/-- Leaves the frame of a call, notes it, and yields the address to return to. -/
def exitFrame : Action Call Word := do
  let returnAddress ← Call.onActivation Frame.exit
  let value := (← get).record.value
  Call.onWorld (note fun s => .frameExited s.fp s.sp value)
  return returnAddress

/-- Leaves the frame of a call with a given record. It yields the address to return to and the
record as it is then. -/
def leaveFrame (record : CallRecord) : Action World (Word × CallRecord) := fun w =>
  match exitFrame ⟨w, record⟩ with
  | .ok returnAddress c => .ok (returnAddress, c.record) c.world
  | .error f c => .error f c.world

end World

end WordMachine

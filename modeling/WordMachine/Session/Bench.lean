/-
Working on a store without a program.

A bench is a world and the list of the call records that the host has obtained from it.
`Bench.serve` answers a request; `Bench.invoke` runs the body of an intrinsic in the active frame,
with no capability asked for and no frame entered or left.
-/
import WordMachine.Intrinsic.Body
import WordMachine.Session.Request

namespace WordMachine

/-- A world and the call records obtained from it. -/
structure Bench where
  world : World
  records : Array CallRecord := #[]
  deriving DecidableEq, Repr, Inhabited

namespace Bench

variable {α : Type}

/-- A bench for a fresh store. -/
def ofConfig (config : Config) (console : Console) : Except Fault Bench :=
  match Store.ofConfig config with
  | .ok store => .ok { world := { store, console } }
  | .error f => .error f

/-- Runs an action on the world. -/
def onWorld (x : Action World α) : Action Bench α :=
  x.focus Bench.world fun w b => { b with world := w }

@[simp]
theorem onWorld_apply (x : Action World α) (b : Bench) :
    onWorld x b = Outcome.within (fun w => { b with world := w }) (x b.world) := rfl

/-- Appends a record. -/
def append (record : CallRecord) : Action Bench Answer := fun b =>
  .ok (.record record) { b with records := b.records.push record }

/-- Runs an action on the world and the record at a position, if there is one. -/
def onCall (index : Nat) (x : Action World.Call Answer) : Action Bench Answer := fun b =>
  match b.records[index]? with
  | none => .ok .noRecord b
  | some record =>
    Outcome.within
      (fun c => { world := c.world, records := b.records.setIfInBounds index c.record })
      (x ⟨b.world, record⟩)

/-- Stages a completion and gives the record as it is then. -/
def stage (completion : Completion) : Action World.Call Answer := fun c =>
  match CallRecord.stage completion c.record with
  | .ok () record => .ok (.record record) { c with record }
  | .error f record => .error f { c with record }

/-- Leaves a frame and gives the return address. -/
def exit : Action World.Call Answer := do
  let returnAddress ← World.exitFrame
  return .word returnAddress

/-- Answers a request about call records. -/
def serveFrame : FrameRequest → Action Bench Answer
  | .enter argument returnAddress => do
    let record ← onWorld (World.enterFrame argument returnAddress)
    append record
  | .active => do
    let record ← onWorld (World.onStore Frame.active)
    append record
  | .stage index completion => onCall index (stage completion)
  | .exit index => onCall index exit
  | .record index => onCall index fun c => .ok (.record c.record) c

/-- Answers a request. -/
def serve : Request → Action Bench Answer
  | .store request => onWorld (World.onStore request.serve)
  | .frame request => serveFrame request

/-- Runs the body of an intrinsic in the active frame. -/
def invoke (i : Intrinsic) : Action Bench Answer := do
  let completion ← onWorld i.body
  return .completion completion

end Bench

end WordMachine

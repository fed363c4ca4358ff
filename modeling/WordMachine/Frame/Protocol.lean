/-
Frames.

A frame is three neighbouring stack cells. While a body runs, the frame pointer names the highest
of them, which holds the argument; the cell below it holds the caller's frame pointer, and the cell
below that the return address. The offsets are the same for both directions of growth.

* `Frame.enter` takes the three cells, fills them and moves the frame pointer.
* `Frame.exit` puts the staged value into register zero, restores the caller's frame pointer, gives
  the cells back and yields the return address. It refuses a record without a staged value and a
  body that left the stack pointer elsewhere than just beyond its frame.
* `Frame.active` reads the record of the running body off the frame.

On the way a record moves from phase to phase, and each move is checked. `Frame.enter_eq` and
`Frame.exit_eq` say that none of these checks fails: an exit finds out before its first change
whether the record is in the phase that it starts from.
-/
import WordMachine.Frame.Record
import WordMachine.Store

namespace WordMachine.Frame

/-- The offset of the argument to the frame pointer. -/
def argumentOffset : Word := 0

/-- The offset of the caller's frame pointer. -/
def savedFpOffset : Word := -1

/-- The offset of the return address. -/
def returnAddressOffset : Word := -2

/-- The register that receives the value of a call. -/
def valueRegister : Nat := 0

/-- The stack pointer that a body must leave behind, from the frame pointer. -/
def balancedSp (growth : Growth) (fp : Word) : Word :=
  let base := fp + returnAddressOffset
  match growth with
  | .upward => base + 3
  | .downward => base - 1

/-- Lays down a frame and enters its body. -/
def enter (argument returnAddress : Word) : Action Store CallRecord := do
  let callerFp := (← get).fp
  let lowest ← Store.reserve 3
  let fp := lowest + 2
  Store.store (fp + argumentOffset) argument
  let record ← (CallRecord.fresh argument returnAddress).advanced .argumentPushed
  Store.store (fp + returnAddressOffset) returnAddress
  let record ← record.advanced .returnAddressPushed
  Store.store (fp + savedFpOffset) callerFp
  let record ← record.advanced .savedFramePushed
  Store.setFp fp
  record.advanced .inBody

/-- **No move of a record fails while its frame is laid down.** -/
theorem enter_eq (argument returnAddress : Word) :
    enter argument returnAddress = do
      let callerFp := (← get).fp
      let lowest ← Store.reserve 3
      let fp := lowest + 2
      Store.store (fp + argumentOffset) argument
      Store.store (fp + returnAddressOffset) returnAddress
      Store.store (fp + savedFpOffset) callerFp
      Store.setFp fp
      return { argument, returnAddress, phase := .inBody } := by
  have hmove : ∀ p q : Phase, p.next? = some q →
      (CallRecord.advanced { argument, returnAddress, phase := p } q : Action Store CallRecord) =
        pure { argument, returnAddress, phase := q } :=
    fun p q h => CallRecord.advanced_of_next h
  simp only [enter, CallRecord.fresh, hmove .idle .argumentPushed rfl,
    hmove .argumentPushed .returnAddressPushed rfl,
    hmove .returnAddressPushed .savedFramePushed rfl, hmove .savedFramePushed .inBody rfl,
    pure_bind]

/-- The record of the body whose frame the frame pointer names. -/
def active : Action Store CallRecord := do
  let argument ← Store.frameLoad argumentOffset
  let returnAddress ← Store.frameLoad returnAddressOffset
  return { argument, returnAddress, phase := .inBody }

/-- A store together with the record of one of its calls. -/
structure Activation where
  store : Store
  record : CallRecord
  deriving DecidableEq, Repr, Inhabited

namespace Activation

variable {α : Type}

def onStore (x : Action Store α) : Action Activation α :=
  x.focus Activation.store fun s a => { a with store := s }

def onRecord (x : Action CallRecord α) : Action Activation α :=
  x.focus Activation.record fun r a => { a with record := r }

@[simp]
theorem onStore_apply (x : Action Store α) (a : Activation) :
    onStore x a = Outcome.within (fun s => { a with store := s }) (x a.store) := rfl

@[simp]
theorem onRecord_apply (x : Action CallRecord α) (a : Activation) :
    onRecord x a = Outcome.within (fun r => { a with record := r }) (x a.record) := rfl

end Activation

open Activation (onStore onRecord onStore_apply onRecord_apply)

/-- Refuses a record without a staged value, then a stack pointer away from its frame. -/
def ready : Action Activation Unit := fun a =>
  if a.record.phase ≠ .valueStaged then .error (.phaseOrder a.record.phase .frameRestored) a
  else if a.store.sp ≠ balancedSp a.store.growth a.store.fp then
    .error (.unbalancedFrame a.store.fp a.store.sp) a
  else .ok () a

theorem ready_eq_ok {a a' : Activation} :
    ready a = .ok () a' ↔
      a.record.phase = .valueStaged ∧ a.store.sp = balancedSp a.store.growth a.store.fp ∧
        a = a' := by
  rw [ready]
  split
  · simp [*]
  · split
    · simp [*]
    · simp_all

/-- Leaves a frame and yields the address to return to. -/
def exit : Action Activation Word := do
  ready
  let returnAddress ← onStore (Store.frameLoad returnAddressOffset)
  let callerFp ← onStore (Store.frameLoad savedFpOffset)
  onStore (Store.setRegister valueRegister (← get).record.value)
  onRecord (CallRecord.advance .frameRestored)
  onStore (Store.setFp callerFp)
  onStore (Store.release 1)
  onStore (Store.release 2)
  onRecord (CallRecord.advance .stackUnwound)
  onRecord (modify fun r => { r with returnAddress })
  onRecord (CallRecord.advance .dispatched)
  return returnAddress

section

variable {α β : Type} {s : Store} {r : CallRecord}

/-- What follows an action on the store finds the record as it was. -/
theorem onStore_bind_congr {x : Action Store α} {f g : α → Action Activation β}
    (h : ∀ v t, f v ⟨t, r⟩ = g v ⟨t, r⟩) : (onStore x >>= f) ⟨s, r⟩ = (onStore x >>= g) ⟨s, r⟩ := by
  cases hx : x s with
  | ok v t =>
    have hstore : onStore x ⟨s, r⟩ = .ok v ⟨t, r⟩ := by rw [onStore_apply, hx, Outcome.within_ok]
    rw [Action.bind_of_ok hstore, Action.bind_of_ok hstore, h]
  | error e t =>
    have hstore : onStore x ⟨s, r⟩ = .error e ⟨t, r⟩ := by
      rw [onStore_apply, hx, Outcome.within_error]
    rw [Action.bind_of_error hstore, Action.bind_of_error hstore]

/-- A move to the next phase passes its check. -/
theorem onRecord_bind_congr {phase : Phase} {f g : Unit → Action Activation β}
    (hnext : r.phase.next? = some phase)
    (h : f () ⟨s, { r with phase }⟩ = g () ⟨s, { r with phase }⟩) :
    (onRecord (CallRecord.advance phase) >>= f) ⟨s, r⟩ =
      (onRecord (modify ({ · with phase })) >>= g) ⟨s, r⟩ := by
  have hmove : onRecord (CallRecord.advance phase) ⟨s, r⟩ = .ok () ⟨s, { r with phase }⟩ := by
    rw [onRecord_apply, CallRecord.advance_of_next hnext, Outcome.within_ok]
  rw [Action.bind_of_ok hmove, h]
  rfl

end

/-- **No move of a record fails while its frame is left**: if the record has no staged value, this
is found out before. -/
theorem exit_eq :
    exit = do
      ready
      let returnAddress ← onStore (Store.frameLoad returnAddressOffset)
      let callerFp ← onStore (Store.frameLoad savedFpOffset)
      onStore (Store.setRegister valueRegister (← get).record.value)
      onRecord (modify ({ · with phase := .frameRestored }))
      onStore (Store.setFp callerFp)
      onStore (Store.release 1)
      onStore (Store.release 2)
      onRecord (modify ({ · with phase := .stackUnwound }))
      onRecord (modify ({ · with returnAddress, phase := .dispatched }))
      return returnAddress := by
  funext ⟨s, r⟩
  cases hready : ready ⟨s, r⟩ with
  | error f a => rw [exit, Action.bind_of_error hready, Action.bind_of_error hready]
  | ok u a =>
    obtain ⟨hphase, -, rfl⟩ := ready_eq_ok.mp hready
    rw [exit, Action.bind_of_ok hready, Action.bind_of_ok hready]
    refine onStore_bind_congr fun returnAddress t => onStore_bind_congr fun callerFp t => ?_
    refine onStore_bind_congr fun _ t => onRecord_bind_congr (by rw [hphase]; rfl) ?_
    refine onStore_bind_congr fun _ t => onStore_bind_congr fun _ t => ?_
    exact onStore_bind_congr fun _ t => onRecord_bind_congr rfl rfl

end WordMachine.Frame

/-
Direct work on a store.

A host may work on a store without a program.  Whatever it asks for, the stack pointer is moved by
three things only: by reserving cells, by releasing them and by a reset.  All else that requests do
leaves the stack pointer and the sizes of the spaces alone.  So a relation that holds along those
three holds along every request.

* `Store.Follows R` says that a relation holds along these moves of the stack pointer, where
  reservations may be restricted to some counts;
* `Bench.leads_follows`: then it holds along every request that reserves no other counts.
-/
import WordMachine.Proofs.History

namespace WordMachine

open WordMachine.Action (Keeps Leads Through leads_pure leads_get)
open Store (shape)

namespace Store

variable {α : Type}

/-! ### Operations that do not move the stack pointer -/

theorem keeps_stack_onRegisters (x : Action Registers α) : Keeps stack (onRegisters x) := by
  intro s
  rw [onRegisters_apply]
  cases x s.registers <;> rfl

theorem keeps_stack_onMemory (x : Action Memory α) : Keeps stack (onMemory x) := by
  intro s
  rw [onMemory_apply]
  cases x s.memory <;> rfl

theorem keeps_stack_frameAddress (offset : Word) : Keeps stack (frameAddress offset) := by
  intro s
  rw [frameAddress]
  cases Word.addExact? s.fp offset <;> rfl

theorem shape_reset (s : Store) : s.reset.shape = s.shape := by
  simp [shape, reset, Registers.clear, Memory.clear, Stack.clear]

/-! ### Relations along moves of the stack pointer -/

/-- A relation holds from a store to another with the same stack pointer and the same sizes, and it
holds along releases, resets and reservations of the counts that are admitted. -/
structure Follows (R : Store → Store → Prop) (Admitted : UInt64 → Prop) : Prop where
  aground : ∀ s t : Store, t.stack = s.stack → t.shape = s.shape → R s t
  reserve : ∀ count, Admitted count → Leads R (onStack (Stack.reserve count))
  release : ∀ count, Leads R (onStack (Stack.release count))
  reset : ∀ s : Store, R s s.reset

namespace Follows

variable {R : Store → Store → Prop} {Admitted : UInt64 → Prop}

theorem of_keeps (h : Follows R Admitted) {x : Action Store α} (hstack : Keeps stack x)
    (hshape : Keeps shape x) : Leads R x := fun s => h.aground s _ (hstack s) (hshape s)

theorem register (h : Follows R Admitted) (index : Nat) : Leads R (register index) :=
  h.of_keeps (keeps_stack_onRegisters _) (keeps_register _).shape

theorem setRegister (h : Follows R Admitted) (index : Nat) (value : Word) :
    Leads R (setRegister index value) :=
  h.of_keeps (keeps_stack_onRegisters _) (keeps_setRegister _ _).shape

theorem load (h : Follows R Admitted) (address : Word) : Leads R (load address) :=
  h.of_keeps (keeps_stack_onMemory _) (keeps_load _).shape

theorem store (h : Follows R Admitted) (address value : Word) : Leads R (store address value) :=
  h.of_keeps (keeps_stack_onMemory _) (keeps_store _ _).shape

theorem setFp (h : Follows R Admitted) (fp : Word) : Leads R (setFp fp) :=
  fun s => h.aground s _ rfl rfl

theorem frameAddress (h : Follows R Admitted) (offset : Word) : Leads R (frameAddress offset) :=
  h.of_keeps (keeps_stack_frameAddress _) (keeps_frameAddress _).shape

variable [IsTrans Store R]

theorem frameLoad (h : Follows R Admitted) (offset : Word) : Leads R (frameLoad offset) :=
  (h.frameAddress offset).bind h.load

variable [Std.Refl R]

/-- A relation that follows the stack pointer holds along every request about the store. -/
theorem serve (h : Follows R Admitted) (hone : Admitted 1) {request : StoreRequest}
    (hrequest : ∀ count, request = .reserve count → Admitted count) : Leads R request.serve := by
  cases request with
  | register index => exact (h.register index).bind fun _ => leads_pure _
  | setRegister index value => exact (h.setRegister index value).bind fun _ => leads_pure _
  | load address => exact (h.load address).bind fun _ => leads_pure _
  | store address value => exact (h.store address value).bind fun _ => leads_pure _
  | frameAddress offset => exact (h.frameAddress offset).bind fun _ => leads_pure _
  | frameLoad offset => exact (h.frameLoad offset).bind fun _ => leads_pure _
  | frameStore offset value =>
    have hstore := (h.frameAddress offset).bind fun a => h.store a value
    exact hstore.bind fun _ => leads_pure _
  | readString address =>
    have hread := h.of_keeps (keeps_stack_onMemory _) (keeps_readString address).shape
    exact hread.bind fun _ => leads_pure _
  | writeString address bytes =>
    have hwrite := h.of_keeps (keeps_stack_onMemory _) (keeps_writeString address bytes).shape
    exact hwrite.bind fun _ => leads_pure _
  | push value =>
    have hpush := (h.reserve 1 hone).bind fun slot => h.store slot value
    exact hpush.bind fun _ => leads_pure _
  | pop =>
    have hpop := (h.release 1).bind h.load
    exact hpop.bind fun _ => leads_pure _
  | reserve count => exact (h.reserve count (hrequest count rfl)).bind fun _ => leads_pure _
  | release count =>
    have hrelease := (h.release count).bind fun _ => leads_pure (R := R) ()
    exact hrelease.bind fun _ => leads_pure _
  | setFp value => exact (h.setFp value).bind fun _ => leads_pure _
  | stageFloat number => exact fun s => h.aground s _ rfl rfl
  | growth => exact leads_get.bind fun _ => leads_pure _
  | reset => exact h.reset

/-! ### Frames -/

theorem enterFrame (h : Follows R Admitted) (hthree : Admitted 3) (argument returnAddress : Word) :
    Leads (Through World.store R) (World.enterFrame argument returnAddress) := by
  have henter : Leads R (Frame.enter argument returnAddress) := by
    rw [Frame.enter_eq]
    refine leads_get.bind fun s => (h.reserve 3 hthree).bind fun lowest => ?_
    refine (h.store _ _).bind fun _ => (h.store _ _).bind fun _ => (h.store _ _).bind fun _ => ?_
    exact (h.setFp _).bind fun _ => leads_pure _
  have hstore : Leads (Through World.store R)
      (World.onStore (Frame.enter argument returnAddress)) := henter.focus fun _ _ => rfl
  refine hstore.bind fun record => Leads.bind (fun w => ?_) fun _ => leads_pure record
  exact Std.Refl.refl w.store

theorem active (h : Follows R Admitted) : Leads R Frame.active :=
  (h.frameLoad _).bind fun _ => (h.frameLoad _).bind fun _ => leads_pure _

theorem exit (h : Follows R Admitted) :
    Leads (Through Frame.Activation.store R) Frame.exit := by
  have hstore : ∀ {β : Type} {x : Action Store β}, Leads R x →
      Leads (Through Frame.Activation.store R) (Frame.Activation.onStore x) :=
    fun hx => hx.focus fun _ _ => rfl
  have hrecord : ∀ {β : Type} (x : Action CallRecord β),
      Leads (Through Frame.Activation.store R) (Frame.Activation.onRecord x) := by
    intro β x a
    rw [Frame.Activation.onRecord_apply, Outcome.state_within]
    exact Std.Refl.refl a.store
  have hready : Leads (Through Frame.Activation.store R) Frame.ready := by
    intro a
    have hkeeps : Keeps (fun a : Frame.Activation => id a.store) Frame.ready := Frame.keeps_ready
    rw [Through, show (Outcome.state (Frame.ready a)).store = a.store from hkeeps a]
    exact Std.Refl.refl a.store
  have hrelease : ∀ count, Leads R (Store.release count) := fun count =>
    (h.release count).bind fun _ => leads_pure _
  rw [Frame.exit_eq]
  refine hready.bind fun _ => ?_
  refine (hstore (h.frameLoad _)).bind fun ra => (hstore (h.frameLoad _)).bind fun callerFp => ?_
  refine leads_get.bind fun a => (hstore (h.setRegister _ _)).bind fun _ => ?_
  refine (hrecord _).bind fun _ => (hstore (h.setFp _)).bind fun _ => ?_
  refine (hstore (hrelease 1)).bind fun _ => (hstore (hrelease 2)).bind fun _ => ?_
  exact (hrecord _).bind fun _ => (hrecord _).bind fun _ => leads_pure _

theorem exitFrame (h : Follows R Admitted) :
    Leads (Through World.Call.world (Through World.store R)) World.exitFrame := by
  have hexit : Leads (Through World.Call.world (Through World.store R))
      (World.Call.onActivation Frame.exit) := by
    intro c
    rw [World.Call.onActivation_apply, Outcome.state_within]
    exact h.exit ⟨c.world.store, c.record⟩
  refine hexit.bind fun ra => leads_get.bind fun c => ?_
  refine Leads.bind (fun c' => ?_) fun _ => leads_pure ra
  exact Std.Refl.refl c'.world.store

end Follows

end Store

/-! ### Requests -/

/-- **A relation that follows the stack pointer holds along every request** that reserves no counts
but those admitted. -/
theorem Bench.leads_follows {R : Store → Store → Prop} {Admitted : UInt64 → Prop} [Std.Refl R]
    [IsTrans Store R] (h : Store.Follows R Admitted) (hone : Admitted 1) (hthree : Admitted 3)
    {request : Request} (hrequest : ∀ count, request = .store (.reserve count) → Admitted count) :
    Leads (Through world (Through World.store R)) (serve request) := by
  refine leads_serve_of (fun r hr => ?_) (h.enterFrame hthree) ?_ h.exitFrame
  · have hserve : Leads R r.serve := h.serve hone fun count hc => hrequest count (by rw [hr, hc])
    exact hserve.focus fun _ _ => rfl
  · exact h.active.focus fun _ _ => rfl

end WordMachine

/-
What stays the same while a program runs.

`Action.Leads R x` says that an action leads from every state to one that is related to it, whether
it succeeds or fails, and `Action.Keeps view x` that it leaves a view of the state as it was.  Both
pass through sequences and through the parts of a state, so that for each instruction, each
intrinsic and each move it is enough to name the operations that it is made of.

* `Machine.Sustained`: a relation holds along the parts of moves, and `Machine.Sustained.advance`:
  so it holds along moves.  The cases of a move are gone through here and nowhere else.
* `Store.shape` is what no operation changes: the sizes of the spaces, and of the stack all but its
  pointer.  `Store.footing` adds the frame pointer, which only entering and leaving a frame change.
* `keeps_setting_advance`: no move changes the program, the configuration, the number of host calls
  in flight or the shape of the store.
* `keeps_footing_execute`, `keeps_footing_body`: instructions and bodies of intrinsics do not move
  the frame pointer either.
-/
import Mathlib.Order.Defs.Unbundled
import WordMachine.Proofs.Control

namespace WordMachine

namespace Action

variable {σ τ α β γ : Type} {R : σ → σ → Prop}

/-- An action leads from every state to a related one, whether it succeeds or fails. -/
def Leads (R : σ → σ → Prop) (x : Action σ α) : Prop := ∀ s, R s (Outcome.state (x s))

theorem Leads.of_ok {x : Action σ α} (hx : Leads R x) {s t : σ} {a : α} (h : x s = .ok a t) :
    R s t := by
  have := hx s
  rwa [h] at this

theorem Leads.of_error {x : Action σ α} (hx : Leads R x) {s t : σ} {f : Fault}
    (h : x s = .error f t) : R s t := by
  have := hx s
  rwa [h] at this

theorem leads_pure [Std.Refl R] (a : α) : Leads R (pure a : Action σ α) :=
  fun s => Std.Refl.refl s

theorem leads_get [Std.Refl R] : Leads R (get : Action σ σ) := fun s => Std.Refl.refl s

theorem leads_fail [Std.Refl R] (f : Fault) : Leads R (fail f : Action σ α) :=
  fun s => Std.Refl.refl s

theorem leads_ofExcept [Std.Refl R] (x : Except Fault α) :
    Leads R (ofExcept x : Action σ α) := by
  intro s
  cases x <;> exact Std.Refl.refl s

theorem Leads.bind [IsTrans σ R] {x : Action σ α} {f : α → Action σ β} (hx : Leads R x)
    (hf : ∀ a, Leads R (f a)) : Leads R (x >>= f) := by
  intro s
  cases h : x s with
  | ok a t =>
    rw [bind_of_ok h]
    exact IsTrans.trans _ _ _ (hx.of_ok h) (hf a t)
  | error e t =>
    rw [bind_of_error h]
    exact hx.of_error h

/-- A view is the same in two states. -/
def Same (view : σ → γ) (s t : σ) : Prop := view t = view s

/-- An action leaves a view of the state as it was, whether it succeeds or fails. -/
def Keeps (view : σ → γ) (x : Action σ α) : Prop := ∀ s, view (Outcome.state (x s)) = view s

variable {view : σ → γ}

instance : Std.Refl (Same view) := ⟨fun _ => rfl⟩

instance : IsTrans σ (Same view) := ⟨fun _ _ _ h h' => Eq.trans h' h⟩

theorem Keeps.of_ok {x : Action σ α} (hx : Keeps view x) {s t : σ} {a : α} (h : x s = .ok a t) :
    view t = view s := Leads.of_ok (R := Same view) hx h

theorem keeps_pure (a : α) : Keeps view (pure a : Action σ α) := fun _ => rfl

theorem keeps_get : Keeps view (get : Action σ σ) := fun _ => rfl

theorem keeps_ofExcept (x : Except Fault α) : Keeps view (ofExcept x : Action σ α) := by
  intro s
  cases x <;> rfl

theorem Keeps.bind {x : Action σ α} {f : α → Action σ β} (hx : Keeps view x)
    (hf : ∀ a, Keeps view (f a)) : Keeps view (x >>= f) := Leads.bind (R := Same view) hx hf

end Action

open WordMachine.Action (Leads leads_pure leads_get leads_fail leads_ofExcept)
open WordMachine.Action (Same Keeps keeps_pure keeps_get keeps_ofExcept)

/-! ### The store -/

/-- What no operation on a store changes. -/
structure Shape where
  growth : Growth
  initial : Word
  capacity : UInt64
  registers : Nat
  memory : Nat
  deriving DecidableEq, Repr

namespace Store

def shape (s : Store) : Shape where
  growth := s.stack.growth
  initial := s.stack.initial
  capacity := s.stack.capacity
  registers := s.registers.size
  memory := s.memory.size

/-- The shape of the store and the frame pointer. -/
def footing (s : Store) : Shape × Word := (s.shape, s.fp)

theorem keeps_register (index : Nat) : Keeps footing (register index) := by
  intro s
  rw [register, onRegisters_apply, Registers.get]
  cases s.registers.cells[index]? <;> rfl

theorem keeps_setRegister (index : Nat) (value : Word) :
    Keeps footing (setRegister index value) := by
  intro s
  rw [setRegister, onRegisters_apply, Registers.set]
  split
  · simp [Outcome.state, footing, shape, Registers.size]
  · rfl

theorem keeps_load (address : Word) : Keeps footing (load address) := by
  intro s
  rw [load, onMemory_apply, Memory.load]
  split <;> rfl

theorem keeps_store (address value : Word) : Keeps footing (store address value) := by
  intro s
  rw [store, onMemory_apply, Memory.store]
  split
  · simp [Outcome.state, footing, shape]
  · rfl

theorem keeps_readString (address : Word) : Keeps footing (readString address) := by
  intro s
  rw [readString, onMemory_apply, Memory.readString]
  split
  · split <;> rfl
  · rfl

theorem keeps_writeString (address : Word) (bytes : Bytes) :
    Keeps footing (writeString address bytes) := by
  intro s
  rw [writeString, onMemory_apply, Memory.writeString]
  split
  · rfl
  · split
    · rfl
    · simp [Outcome.state, footing, shape]

theorem keeps_frameAddress (offset : Word) : Keeps footing (frameAddress offset) := by
  intro s
  rw [frameAddress]
  cases Word.addExact? s.fp offset <;> rfl

theorem keeps_frameLoad (offset : Word) : Keeps footing (frameLoad offset) :=
  (keeps_frameAddress offset).bind keeps_load

theorem keeps_frameStore (offset value : Word) : Keeps footing (frameStore offset value) :=
  (keeps_frameAddress offset).bind fun a => keeps_store a value

theorem keeps_reserve (count : UInt64) : Keeps footing (onStack (Stack.reserve count)) := by
  intro s
  rw [onStack_apply, Stack.reserve]
  split <;> rfl

theorem keeps_release (count : UInt64) : Keeps footing (onStack (Stack.release count)) := by
  intro s
  rw [onStack_apply, Stack.release]
  split <;> rfl

theorem keeps_push (value : Word) : Keeps footing (push value) :=
  (keeps_reserve 1).bind fun slot => keeps_store slot value

theorem keeps_pop : Keeps footing pop := (keeps_release 1).bind keeps_load

theorem keeps_stageFloat (x : Single) : Keeps footing (stageFloat x) := fun _ => rfl

theorem keeps_setFp (fp : Word) : Keeps shape (setFp fp) := fun _ => rfl

end Store

open Store (shape footing)

/-- What keeps the footing keeps the shape. -/
theorem Action.Keeps.shape {α : Type} {x : Action Store α} (h : Keeps footing x) :
    Keeps shape x := fun s => congrArg Prod.fst (h s)

/-! ### Frames -/

namespace Frame

theorem keeps_enter (argument returnAddress : Word) :
    Keeps shape (enter argument returnAddress) := by
  rw [enter_eq]
  refine keeps_get.bind fun s => (Store.keeps_reserve 3).shape.bind fun lowest => ?_
  refine (Store.keeps_store _ _).shape.bind fun _ => ?_
  refine (Store.keeps_store _ _).shape.bind fun _ => ?_
  refine (Store.keeps_store _ _).shape.bind fun _ => ?_
  exact (Store.keeps_setFp _).bind fun _ => keeps_pure _

theorem keeps_active : Keeps footing active :=
  (Store.keeps_frameLoad _).bind fun _ => (Store.keeps_frameLoad _).bind fun _ => keeps_pure _

variable {α γ : Type}

theorem keeps_onStore {view : Store → γ} {x : Action Store α} (h : Keeps view x) :
    Keeps (fun a => view a.store) (Activation.onStore x) := by
  intro a
  have ha := h a.store
  rw [Activation.onStore_apply]
  cases hx : x a.store <;> rwa [hx] at ha

theorem keeps_onRecord {view : Store → γ} (x : Action CallRecord α) :
    Keeps (fun a => view a.store) (Activation.onRecord x) := by
  intro a
  rw [Activation.onRecord_apply]
  cases x a.record <;> rfl

theorem keeps_ready {view : Store → γ} : Keeps (fun a => view a.store) ready := by
  intro a
  rw [ready]
  split
  · rfl
  · split <;> rfl

theorem keeps_release (count : UInt64) : Keeps shape (Store.release count) :=
  (Store.keeps_release count).shape.bind fun _ => keeps_pure _

theorem keeps_exit : Keeps (fun a => shape a.store) exit := by
  rw [exit_eq]
  refine keeps_ready.bind fun _ => ?_
  refine (keeps_onStore (Store.keeps_frameLoad _).shape).bind fun ra => ?_
  refine (keeps_onStore (Store.keeps_frameLoad _).shape).bind fun callerFp => ?_
  refine keeps_get.bind fun a => ?_
  refine (keeps_onStore (Store.keeps_setRegister _ _).shape).bind fun _ => ?_
  refine (keeps_onRecord _).bind fun _ => ?_
  refine (keeps_onStore (Store.keeps_setFp _)).bind fun _ => ?_
  refine (keeps_onStore (keeps_release 1)).bind fun _ => ?_
  refine (keeps_onStore (keeps_release 2)).bind fun _ => ?_
  refine (keeps_onRecord _).bind fun _ => ?_
  exact (keeps_onRecord _).bind fun _ => keeps_pure _

end Frame

/-! ### The world around the store -/

namespace World

variable {α γ : Type} {view : Store → γ}

theorem keeps_onStore {x : Action Store α} (h : Keeps view x) :
    Keeps (fun w => view w.store) (onStore x) := by
  intro w
  have hw := h w.store
  rw [onStore_apply]
  cases hx : x w.store <;> rwa [hx] at hw

theorem keeps_onConsole (x : Action Console α) :
    Keeps (fun w => view w.store) (onConsole x) := by
  intro w
  rw [onConsole_apply]
  cases x w.console <;> rfl

theorem keeps_note (event : Store → Event) : Keeps (fun w => view w.store) (note event) :=
  fun _ => rfl

theorem keeps_enterFrame (argument returnAddress : Word) :
    Keeps (fun w => shape w.store) (enterFrame argument returnAddress) :=
  (keeps_onStore (Frame.keeps_enter _ _)).bind fun _ =>
    (keeps_note _).bind fun _ => keeps_pure _

theorem leaveFrame_of_ok {record : CallRecord} {w : World} {address : Word} {a : Frame.Activation}
    (h : Frame.exit ⟨w.store, record⟩ = .ok address a) :
    leaveFrame record w = .ok (address, a.record)
      { w with
        store := a.store
        journal := w.journal.push (.frameExited a.store.fp a.store.sp a.record.value) } := by
  have hexit : exitFrame ⟨w, record⟩ = _ :=
    Action.bind_of_ok (Outcome.within_eq_ok.mpr ⟨a, h, rfl⟩)
  rw [leaveFrame, hexit]
  rfl

theorem leaveFrame_of_error {record : CallRecord} {w : World} {f : Fault} {a : Frame.Activation}
    (h : Frame.exit ⟨w.store, record⟩ = .error f a) :
    leaveFrame record w = .error f { w with store := a.store } := by
  have hexit : exitFrame ⟨w, record⟩ = _ := Action.bind_of_error (by
    rw [Call.onActivation_apply, h]
    rfl)
  rw [leaveFrame, hexit]

theorem keeps_leaveFrame (record : CallRecord) :
    Keeps (fun w => shape w.store) (leaveFrame record) := by
  intro w
  have hexit := Frame.keeps_exit ⟨w.store, record⟩
  cases h : Frame.exit ⟨w.store, record⟩ with
  | ok address a =>
    rw [leaveFrame_of_ok h]
    rwa [h] at hexit
  | error f a =>
    rw [leaveFrame_of_error h]
    rwa [h] at hexit

end World

namespace Intrinsic

open World (keeps_onStore keeps_onConsole keeps_note)

theorem keeps_readToken : Keeps (fun w => footing w.store) readToken := by
  refine (keeps_onConsole _).bind fun _ => (keeps_onConsole _).bind fun token => ?_
  cases token <;> exact keeps_pure _

theorem keeps_complete (i : Intrinsic) (result : Except InputFailure Word) :
    Keeps (fun w => footing w.store) (complete i result) := by
  cases result with
  | ok value => exact keeps_pure _
  | error e => exact (keeps_note _).bind fun _ => keeps_pure _

theorem keeps_read (i : Intrinsic) {accept : Bytes → Action World (Except InputFailure Word)}
    (h : ∀ token, Keeps (fun w => footing w.store) (accept token)) :
    Keeps (fun w => footing w.store) (read i accept) := by
  refine keeps_readToken.bind fun token => ?_
  cases token with
  | ok token => exact (h token).bind fun result => keeps_complete i result
  | error e => exact keeps_complete i (.error e)

theorem keeps_print (bytes : Bytes) : Keeps (fun w => footing w.store) (print bytes) :=
  (keeps_onConsole _).bind fun _ => keeps_pure _

theorem keeps_acceptFloat (token : Bytes) :
    Keeps (fun w => footing w.store) (acceptFloat token) := by
  rw [acceptFloat]
  cases Input.float token with
  | ok x => exact (keeps_onStore (Store.keeps_stageFloat x)).bind fun _ => keeps_pure _
  | error e => exact keeps_pure _

theorem keeps_acceptString (address : Word) (token : Bytes) :
    Keeps (fun w => footing w.store) (acceptString address token) := by
  rw [acceptString]
  cases Input.string token with
  | ok bytes => exact (keeps_onStore (Store.keeps_writeString _ _)).bind fun _ => keeps_pure _
  | error e => exact keeps_pure _

/-- The body of an intrinsic does not move the frame pointer. -/
theorem keeps_footing_body (i : Intrinsic) : Keeps (fun w => footing w.store) i.body := by
  refine (keeps_onStore (Store.keeps_frameLoad _)).bind fun argument => ?_
  cases i with
  | printInteger => exact keeps_print _
  | printBoolean => exact keeps_print _
  | printString =>
    exact (keeps_onStore (Store.keeps_readString _)).bind fun _ => keeps_print _
  | printFloat =>
    exact (keeps_onStore (Store.keeps_stageFloat _)).bind fun _ => keeps_print _
  | readInteger => exact keeps_read _ fun _ => keeps_pure _
  | readFloat => exact keeps_read _ keeps_acceptFloat
  | readString => exact keeps_read _ (keeps_acceptString argument)
  | readBoolean => exact keeps_read _ fun _ => keeps_pure _

end Intrinsic

/-! ### Machines -/

namespace Machine

variable {α γ : Type} {view : Store → γ}

/-- The program, the configuration, the host calls in flight, and a view of the store. -/
def setting (view : Store → γ) (m : Machine) : Program × Config × Nat × γ :=
  (m.program, m.config, m.hostCalls, view m.store)

theorem keeps_onWorld {x : Action World α} (h : Keeps (fun w => view w.store) x) :
    Keeps (setting view) (onWorld x) := by
  intro m
  have hm := h m.toWorld
  rw [onWorld_apply]
  cases hx : x m.toWorld with
  | ok a w =>
    rw [hx] at hm
    exact congrArg (fun v => (m.program, m.config, m.hostCalls, v)) hm
  | error f w =>
    rw [hx] at hm
    exact congrArg (fun v => (m.program, m.config, m.hostCalls, v)) hm

theorem keeps_onStore {x : Action Store α} (h : Keeps view x) :
    Keeps (setting view) (onStore x) := keeps_onWorld (World.keeps_onStore h)

theorem keeps_fetch (r : Register) : Keeps (setting footing) (fetch r) :=
  keeps_onStore (Store.keeps_register _)

theorem keeps_assign (r : Register) (value : Word) : Keeps (setting footing) (assign r value) :=
  keeps_onStore (Store.keeps_setRegister _ _)

theorem keeps_address (operand : Operand) : Keeps (setting footing) (address operand) := by
  cases operand with
  | absolute a => exact keeps_pure a
  | indirect r => exact keeps_fetch r

/-- An instruction does not move the frame pointer. -/
theorem keeps_footing_execute (i : Instruction) : Keeps (setting footing) (execute i) := by
  cases i with
  | constant dst value => exact keeps_assign dst value
  | copy dst src => exact (keeps_fetch src).bind fun value => keeps_assign dst value
  | label dst l => exact keeps_assign dst _
  | load dst operand =>
    refine (keeps_address operand).bind fun a => ?_
    exact (keeps_onStore (Store.keeps_load a)).bind fun value => keeps_assign dst value
  | store operand src =>
    refine (keeps_address operand).bind fun a => (keeps_fetch src).bind fun value => ?_
    exact keeps_onStore (Store.keeps_store a value)
  | loadFrame dst offset =>
    exact (keeps_onStore (Store.keeps_frameLoad offset)).bind fun value => keeps_assign dst value
  | storeFrame offset src =>
    exact (keeps_fetch src).bind fun value => keeps_onStore (Store.keeps_frameStore offset value)
  | binary op dst lhs rhs =>
    refine (keeps_fetch lhs).bind fun a => (keeps_fetch rhs).bind fun b => ?_
    exact (keeps_ofExcept _).bind fun value => keeps_assign dst value
  | unary op dst src => exact (keeps_fetch src).bind fun a => keeps_assign dst _
  | push src => exact (keeps_fetch src).bind fun value => keeps_onStore (Store.keeps_push value)
  | pop dst => exact (keeps_onStore Store.keeps_pop).bind fun value => keeps_assign dst value
  | status dst => exact fun m => keeps_assign dst _ m

/-- What keeps the footing keeps the shape. -/
theorem keeps_shape {x : Action Machine α} (h : Keeps (setting footing) x) :
    Keeps (setting shape) x := fun m =>
  congrArg (fun v => (v.1, v.2.1, v.2.2.1, v.2.2.2.1)) (h m)

theorem keeps_leave (record : CallRecord) : Keeps (setting shape) (leave record) := by
  refine (keeps_onWorld (World.keeps_leaveFrame record)).bind fun a => ?_
  exact Keeps.bind (fun _ => rfl) fun _ => keeps_pure _

/-! ### Moves -/

/-- What counting a step leaves is the machine with one step more, whatever the limit says. -/
theorem state_count (m : Machine) :
    Outcome.state (count m) = { m with steps := m.steps + 1 } := by
  rw [count]
  cases m.config.stepLimit with
  | none => rfl
  | some limit =>
    dsimp only
    split <;> rfl

theorem state_goTo (target : Word) (m : Machine) : Outcome.state (goTo target m) = m := by
  rw [goTo]
  cases m.program.resolve target <;> rfl

theorem state_permit (callee : Callee) (m : Machine) : Outcome.state (permit callee m) = m := by
  have hofExcept : ∀ x : Except Fault Unit, Outcome.state (Action.ofExcept x m) = m := by
    intro x
    cases x <;> rfl
  cases callee <;> exact hofExcept _

/-- A relation between machines holds along what moves are made of, apart from what is done at a
dispatch, at a halt and for the body of an intrinsic. -/
structure Sustained (R : Machine → Machine → Prop) : Prop where
  execute : ∀ i, Leads R (execute i)
  fetch : ∀ r, Leads R (fetch r)
  active : Leads R (onStore Frame.active)
  enter : ∀ argument returnAddress, Leads R (onWorld (World.enterFrame argument returnAddress))
  leave : ∀ record, Leads R (leave record)

section

variable {R : Machine → Machine → Prop} [Std.Refl R]

theorem leads_goTo (target : Word) : Leads R (goTo target) := by
  intro m
  rw [state_goTo]
  exact Std.Refl.refl m

theorem leads_permit (callee : Callee) : Leads R (permit callee) := by
  intro m
  rw [state_permit]
  exact Std.Refl.refl m

theorem Sustained.vacate (h : Sustained R) (record : CallRecord) (completion : Completion) :
    Leads R (vacate record completion) := by
  rw [Machine.vacate]
  cases CallRecord.stage completion record with
  | ok _ r => exact h.leave r
  | error f _ => exact leads_fail f

variable [IsTrans Machine R]

theorem leads_land (address : Word) : Leads R (land address) := by
  refine leads_get.bind fun m => ?_
  split
  · exact leads_pure _
  · exact leads_goTo address

theorem leads_dispatch {l : Label} (hcount : Leads R count)
    (hnote : Leads R (onWorld (World.note fun s => .dispatch l s.sp s.fp))) :
    Leads R (advance (.dispatch l)) := by
  refine hcount.bind fun _ => hnote.bind fun _ => leads_get.bind fun m => ?_
  exact (leads_ofExcept _).bind fun b => leads_pure _

theorem Sustained.returned (h : Sustained R) (value : Option Register) :
    Leads R (returned value) := by
  cases value with
  | none => exact leads_pure _
  | some r => exact (h.fetch r).bind fun _ => leads_pure _

/-- **What holds along the parts of a move holds along the move**, whether it succeeds or fails. -/
theorem Sustained.advance (h : Sustained R) {c : Control}
    (hdispatch : ∀ l, c = .dispatch l →
      Leads R count ∧ Leads R (onWorld (World.note fun s => .dispatch l s.sp s.fp)))
    (hserving : ∀ i argument record, c = .serving i argument record →
      Leads R (onWorld (World.note fun _ => .intrinsicCalled i argument)) ∧
        Leads R (onWorld i.body))
    (hhalt : c = .inside [] .halt → ∀ m, R m { m with halted := true }) : Leads R (advance c) := by
  cases c with
  | dispatch l =>
    obtain ⟨hcount, hnote⟩ := hdispatch l rfl
    exact leads_dispatch hcount hnote
  | inside rest t =>
    cases rest with
    | cons i rest => exact (h.execute i).bind fun _ => leads_pure _
    | nil =>
      cases t with
      | jump target => exact leads_pure _
      | branch r ifZero otherwise => exact (h.fetch r).bind fun _ => leads_pure _
      | jumpRegister r => exact (h.fetch r).bind fun w => (leads_goTo w).bind fun _ => leads_pure _
      | call callee r resume => exact (h.fetch r).bind fun _ => leads_pure _
      | ret value => exact h.active.bind fun _ => (h.returned value).bind fun _ => leads_pure _
      | halt => exact hhalt rfl
  | entering callee argument caller =>
    refine (leads_permit callee).bind fun _ => (h.enter _ _).bind fun record => ?_
    cases callee <;> exact leads_pure _
  | serving i argument record =>
    obtain ⟨hnote, hbody⟩ := hserving i argument record rfl
    exact hnote.bind fun _ => hbody.bind fun _ => leads_pure _
  | leaving record completion => exact (h.vacate _ _).bind fun _ => leads_pure _
  | landing address => exact (leads_land address).bind fun _ => leads_pure _
  | gone d => exact leads_pure _

end

theorem sustained_setting : Sustained (Same (setting shape)) where
  execute i := keeps_shape (keeps_footing_execute i)
  fetch r := keeps_shape (keeps_fetch r)
  active := keeps_shape (keeps_onStore Frame.keeps_active)
  enter _ _ := keeps_onWorld (World.keeps_enterFrame _ _)
  leave := keeps_leave

/-- **No move changes the setting** that the program runs in. -/
theorem keeps_setting_advance (c : Control) : Keeps (setting shape) (advance c) := by
  refine sustained_setting.advance (fun l _ => ⟨fun m => ?_, keeps_onWorld (World.keeps_note _)⟩)
    (fun i _ _ _ => ⟨keeps_onWorld (World.keeps_note _), ?_⟩) fun _ _ => rfl
  · rw [state_count]
    rfl
  · exact keeps_shape (keeps_onWorld (Intrinsic.keeps_footing_body i))

end Machine

end WordMachine

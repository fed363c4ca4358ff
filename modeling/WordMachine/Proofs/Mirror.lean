/-
Stacks that grow up and stacks that grow down.

Two machines mirror each other if they hold the same stack, one growing up and one growing down, and
have everything else in common.  Operations that do not look at addresses treat the two alike: they
succeed on both with the same result, or fail on both with the same kind of fault.

* `Fault.kind` is a fault without the addresses that it mentions;
* `Outcome.Agree` compares two outcomes, `Action.Respects` says that an action keeps a relation;
* `Store.Mirrored`, `World.Mirrored` and `Machine.Mirrored` relate states that mirror each other,
  `Store.Similar` and so on say what shows of that: all but addresses and the contents of memory;
* `Machine.agree_execute`: an instruction that looks at no address treats the two alike.
-/
import WordMachine.Proofs.Layout
import WordMachine.Proofs.Moment

namespace WordMachine

/-- A fault without the addresses that it mentions. -/
def Fault.kind : Fault → Fault
  | .outOfBounds space _ => .outOfBounds space 0
  | .unbalancedFrame _ _ => .unbalancedFrame 0 0
  | f => f

namespace Outcome

variable {σ τ α : Type}

/-- Two outcomes agree if both are the same result in related states, or both are faults of the same
kind in states that are related as failures are. -/
def Agree (E R : σ → σ → Prop) : Outcome σ α → Outcome σ α → Prop
  | .ok a s, .ok b t => a = b ∧ R s t
  | .error e s, .error f t => e.kind = f.kind ∧ E s t
  | _, _ => False

variable {E R : σ → σ → Prop} {E' R' : τ → τ → Prop}

/-- Two outcomes that agree are two results or two faults. -/
theorem Agree.cases {o o' : Outcome σ α} (h : Agree E R o o') :
    (∃ a s t, o = .ok a s ∧ o' = .ok a t ∧ R s t) ∨
      ∃ e f s t, o = .error e s ∧ o' = .error f t ∧ e.kind = f.kind ∧ E s t := by
  cases o with
  | ok a s =>
    cases o' with
    | ok b t =>
      obtain ⟨rfl, hR⟩ := h
      exact .inl ⟨a, s, t, rfl, rfl, hR⟩
    | error e t => exact h.elim
  | error e s =>
    cases o' with
    | ok b t => exact h.elim
    | error f t => exact .inr ⟨e, f, s, t, rfl, rfl, h⟩

theorem Agree.within {f g : τ → σ} {o o' : Outcome τ α} (h : Agree E' R' o o')
    (hR : ∀ s t, R' s t → R (f s) (g t)) (hE : ∀ s t, E' s t → E (f s) (g t)) :
    Agree E R (within f o) (within g o') := by
  obtain ⟨a, s, t, rfl, rfl, hok⟩ | ⟨e, f, s, t, rfl, rfl, hkind, hfail⟩ := h.cases
  · exact ⟨rfl, hR s t hok⟩
  · exact ⟨hkind, hE s t hfail⟩

theorem Agree.mono {R' : σ → σ → Prop} {o o' : Outcome σ α} (h : Agree E R o o')
    (hR : ∀ s t, R s t → R' s t) : Agree E R' o o' := by
  obtain ⟨a, s, t, rfl, rfl, hok⟩ | ⟨e, f, s, t, rfl, rfl, hfail⟩ := h.cases
  · exact ⟨rfl, hR s t hok⟩
  · exact hfail

/-- An outcome agrees with itself wherever it is put. -/
theorem Agree.within_same {f g : τ → σ} {o : Outcome τ α} (hR : ∀ t, R (f t) (g t))
    (hE : ∀ t, E (f t) (g t)) : Agree E R (Outcome.within f o) (Outcome.within g o) := by
  cases o with
  | ok a t => exact ⟨rfl, hR t⟩
  | error e t => exact ⟨rfl, hE t⟩

end Outcome

open Outcome (Agree)

namespace Action

variable {σ α β : Type} {E R R' : σ → σ → Prop}

theorem agree_bind {x : Action σ α} {f : α → Action σ β} {s t : σ} (hx : Agree E R (x s) (x t))
    (hf : ∀ a s t, R s t → Agree E R' (f a s) (f a t)) :
    Agree E R' ((x >>= f) s) ((x >>= f) t) := by
  obtain ⟨a, s', t', hs, ht, hR⟩ | ⟨e, f, s', t', hs, ht, h⟩ := hx.cases
  · rw [bind_of_ok hs, bind_of_ok ht]
    exact hf a s' t' hR
  · rw [bind_of_error hs, bind_of_error ht]
    exact h

/-- An action treats related states alike and leaves them related. -/
def Respects (E R : σ → σ → Prop) (x : Action σ α) : Prop :=
  ∀ s t, R s t → Agree E R (x s) (x t)

theorem respects_pure (a : α) : Respects E R (pure a : Action σ α) := fun _ _ h => ⟨rfl, h⟩

theorem respects_ofExcept (hE : ∀ s t, R s t → E s t) (x : Except Fault α) :
    Respects E R (ofExcept x : Action σ α) := by
  intro s t h
  cases x with
  | ok a => exact ⟨rfl, h⟩
  | error f => exact ⟨rfl, hE s t h⟩

theorem Respects.bind {x : Action σ α} {f : α → Action σ β} (hx : Respects E R x)
    (hf : ∀ a, Respects E R (f a)) : Respects E R (x >>= f) :=
  fun s t h => agree_bind (hx s t h) hf

end Action

open WordMachine.Action (Respects respects_pure respects_ofExcept agree_bind)

/-! ### Stores -/

/-- The frame pointers of the frames of a stack that grows up. -/
def framePointers (size : Nat) : List Slot → List Word
  | [] => []
  | .word _ :: below => framePointers size below
  | .frame _ _ :: below =>
    framePointer .upward size (height below) :: framePointers size below

theorem exists_topFrame {size : Nat} {slots : List Slot} (h : framePointers size slots ≠ []) :
    ∃ argument returnAddress, topFrame? slots = some (argument, returnAddress) := by
  induction slots with
  | nil => exact absurd rfl h
  | cons slot below ih =>
    cases slot with
    | word w => exact ih h
    | frame argument returnAddress => exact ⟨argument, returnAddress, rfl⟩

namespace Store

/-- A store whose stack grows up and one whose stack grows down mirror each other: they hold the
same stack, whose frames are the live ones, and have everything else in common. -/
structure Mirrored (size : Nat) (live : List LiveFrame) (u d : Store) : Prop where
  slots : ∃ slots, Holds .upward size slots u ∧ Holds .downward size slots d ∧
    framePointers size slots = live.map LiveFrame.fp
  aside : u.aside = d.aside

/-- What shows of two stores that mirror each other. -/
def Similar (u d : Store) : Prop := u.aside = d.aside ∧ u.depth = d.depth

variable {size : Nat} {live : List LiveFrame} {u d : Store}

theorem Mirrored.similar (h : Mirrored size live u d) : Similar u d := by
  obtain ⟨slots, hu, hd, -⟩ := h.slots
  refine ⟨h.aside, ?_⟩
  rw [Store.depth, Store.depth, hu.depth, hd.depth]

theorem Mirrored.registers_eq (h : Mirrored size live u d) : u.registers = d.registers :=
  congrArg Prod.fst h.aside

theorem Mirrored.scratch_eq (h : Mirrored size live u d) : u.scratch = d.scratch :=
  congrArg Prod.snd h.aside

theorem register_eq (index : Nat) (s : Store) :
    register index s =
      match s.registers.cells[index]? with
      | some w => .ok w s
      | none => .error (.outOfBounds .register (Int64.ofNat index)) s := by
  rw [register, onRegisters_apply, Registers.get]
  cases s.registers.cells[index]? <;> rfl

theorem setRegister_eq (index : Nat) (v : Word) (s : Store) :
    setRegister index v s =
      if index < s.registers.cells.size then
        .ok () { s with registers := ⟨s.registers.cells.setIfInBounds index v⟩ }
      else .error (.outOfBounds .register (Int64.ofNat index)) s := by
  rw [setRegister, onRegisters_apply, Registers.set]
  split <;> rfl

theorem respects_register (index : Nat) :
    Respects Similar (Mirrored size live) (register index) := by
  intro u d h
  rw [register_eq, register_eq, ← h.registers_eq]
  cases u.registers.cells[index]? with
  | some w => exact ⟨rfl, h⟩
  | none => exact ⟨rfl, h.similar⟩

/-- The stack does not depend on the registers and the scratch cell. -/
theorem Holds.of_aside {g : Growth} {slots : List Slot} {s : Store} (h : Holds g size slots s)
    (r : Registers) (x : Single) : Holds g size slots { s with registers := r, scratch := x } :=
  ⟨h.level.congr rfl rfl, h.laid⟩

theorem respects_setRegister (index : Nat) (v : Word) :
    Respects Similar (Mirrored size live) (setRegister index v) := by
  intro u d h
  rw [setRegister_eq, setRegister_eq, ← h.registers_eq]
  split
  · obtain ⟨slots, hu, hd, hlive⟩ := h.slots
    exact ⟨rfl, ⟨slots, hu.of_aside _ u.scratch, hd.of_aside _ d.scratch, hlive⟩,
      congrArg (Prod.mk _) h.scratch_eq⟩
  · exact ⟨rfl, h.similar⟩

theorem respects_stageFloat (x : Single) :
    Respects Similar (Mirrored size live) (stageFloat x) := by
  intro u d h
  obtain ⟨slots, hu, hd, hlive⟩ := h.slots
  exact ⟨rfl, ⟨slots, hu.of_aside u.registers x, hd.of_aside d.registers x, hlive⟩,
    congrArg (Prod.mk · x) h.registers_eq⟩

theorem respects_push (w : Word) : Respects Similar (Mirrored size live) (push w) := by
  intro u d h
  obtain ⟨slots, hu, hd, hlive⟩ := h.slots
  by_cases hroom : height slots < size
  · obtain ⟨u', hpu, hu', hau⟩ := hu.push_of_lt hroom w
    obtain ⟨d', hpd, hd', had⟩ := hd.push_of_lt hroom w
    rw [hpu, hpd]
    exact ⟨rfl, ⟨.word w :: slots, hu', hd', hlive⟩, by rw [hau, had, h.aside]⟩
  · obtain ⟨i, hpu⟩ := hu.push_of_full hroom w
    obtain ⟨j, hpd⟩ := hd.push_of_full hroom w
    rw [hpu, hpd]
    exact ⟨rfl, h.similar⟩

/-- The word that a pop would take is not in a live frame. -/
def PopsWord (live : List LiveFrame) (s : Store) : Prop :=
  ∀ f ∈ live, ∀ offset ∈ [Frame.argumentOffset, Frame.savedFpOffset, Frame.returnAddressOffset],
    f.fp + offset ≠ s.stack.lowered 1

theorem agree_pop (h : Mirrored size live u d) (hpop : PopsWord live u) :
    Agree Similar (Mirrored size live) (pop u) (pop d) := by
  obtain ⟨slots, hu, hd, hlive⟩ := h.slots
  match slots with
  | [] =>
    obtain ⟨i, hpu⟩ := hu.pop_nil
    obtain ⟨j, hpd⟩ := hd.pop_nil
    rw [hpu, hpd]
    exact ⟨rfl, h.similar⟩
  | .word w :: below =>
    obtain ⟨u', hpu, hu', hau⟩ := hu.pop_word
    obtain ⟨d', hpd, hd', had⟩ := hd.pop_word
    rw [hpu, hpd]
    exact ⟨rfl, ⟨below, hu', hd', hlive⟩, by rw [hau, had, h.aside]⟩
  | .frame argument returnAddress :: below =>
    -- the topmost frame is live, and its argument is the word that would be taken
    cases live with
    | nil => cases hlive
    | cons f older =>
      have hfp : framePointer .upward size (height below) = f.fp := (List.cons.inj hlive).1
      have hne := hpop f List.mem_cons_self Frame.argumentOffset List.mem_cons_self
      rw [← hfp, framePointer_add_argumentOffset, hu.lowered_one] at hne
      exact absurd rfl hne

/-! ### Frames -/

theorem Mirrored.exists_topFrame {f : LiveFrame} {older : List LiveFrame}
    (h : Mirrored size (f :: older) u d) :
    ∃ slots argument returnAddress, Holds .upward size slots u ∧ Holds .downward size slots d ∧
      framePointers size slots = (f :: older).map LiveFrame.fp ∧
      topFrame? slots = some (argument, returnAddress) := by
  obtain ⟨slots, hu, hd, hlive⟩ := h.slots
  have hne : framePointers size slots ≠ [] := by
    rw [hlive]
    exact List.cons_ne_nil _ _
  obtain ⟨argument, returnAddress, htop⟩ := WordMachine.exists_topFrame hne
  exact ⟨slots, argument, returnAddress, hu, hd, hlive, htop⟩

/-- The argument of a frame is the same for both directions. -/
theorem agree_frameLoad (h : Mirrored size live u d) (hlive : live ≠ []) :
    Agree Similar (Mirrored size live) (frameLoad Frame.argumentOffset u)
      (frameLoad Frame.argumentOffset d) := by
  obtain ⟨f, older, rfl⟩ := List.exists_cons_of_ne_nil hlive
  obtain ⟨slots, argument, returnAddress, hu, hd, -, htop⟩ := h.exists_topFrame
  rw [hu.frameLoad_argument htop, hd.frameLoad_argument htop]
  exact ⟨rfl, h⟩

theorem agree_active (h : Mirrored size live u d) (hlive : live ≠ []) :
    Agree Similar (Mirrored size live) (Frame.active u) (Frame.active d) := by
  obtain ⟨f, older, rfl⟩ := List.exists_cons_of_ne_nil hlive
  obtain ⟨slots, argument, returnAddress, hu, hd, -, htop⟩ := h.exists_topFrame
  rw [hu.active htop, hd.active htop]
  exact ⟨rfl, h⟩

/-- Entering a frame makes it live. -/
theorem agree_enter (h : Mirrored size live u d) (argument returnAddress : Word) :
    Agree Similar
      (fun u' d' => ∀ f : LiveFrame, f.fp = u'.fp → Mirrored size (f :: live) u' d')
      (Frame.enter argument returnAddress u) (Frame.enter argument returnAddress d) := by
  obtain ⟨slots, hu, hd, hlive⟩ := h.slots
  by_cases hroom : height slots + 3 ≤ size
  · obtain ⟨u', heu, hu', hau, hfp⟩ := hu.enter_of_le hroom argument returnAddress
    obtain ⟨d', hed, hd', had, -⟩ := hd.enter_of_le hroom argument returnAddress
    rw [heu, hed]
    refine ⟨rfl, fun f hf => ⟨⟨_, hu', hd', ?_⟩, by rw [hau, had, h.aside]⟩⟩
    rw [framePointers, hlive, List.map_cons, hf, hfp]
  · obtain ⟨i, heu⟩ := hu.enter_of_full hroom argument returnAddress
    obtain ⟨j, hed⟩ := hd.enter_of_full hroom argument returnAddress
    rw [heu, hed]
    exact ⟨rfl, h.similar⟩

/-- Leaving the frame that was entered last succeeds for both directions or for neither. -/
theorem agree_exit (h : Mirrored size live u d) (hlive : live ≠ []) {record : CallRecord}
    (hphase : record.phase = .valueStaged) :
    Agree (fun a b => Similar a.store b.store)
      (fun a b => Mirrored size live.tail a.store b.store ∧ a.record = b.record)
      (Frame.exit ⟨u, record⟩) (Frame.exit ⟨d, record⟩) := by
  obtain ⟨f, older, rfl⟩ := List.exists_cons_of_ne_nil hlive
  obtain ⟨slots, argument, returnAddress, hu, hd, hfps, htop⟩ := h.exists_topFrame
  match slots with
  | [] => cases htop
  | .word w :: below =>
    -- A word above the frame: the two stack pointers differ, but both are off balance.
    rw [Frame.exit_of_unbalanced hphase (hu.sp_unbalanced htop),
      Frame.exit_of_unbalanced hphase (hd.sp_unbalanced htop)]
    exact ⟨rfl, h.similar⟩
  | .frame _ ra :: below =>
    -- Nothing is above the frame, and the exit depends on the registers only.
    by_cases hreg : Frame.valueRegister < u.registers.cells.size
    · obtain ⟨u', hxu, hu', hau⟩ := hu.exit_of_frame hphase hreg
      obtain ⟨d', hxd, hd', had⟩ := hd.exit_of_frame hphase (h.registers_eq ▸ hreg)
      rw [hxu, hxd]
      refine ⟨rfl, ⟨⟨below, hu', hd', (List.cons.inj hfps).2⟩, ?_⟩, rfl⟩
      rw [hau, had, h.registers_eq, h.scratch_eq]
    · rw [hu.exit_of_missing hphase hreg, hd.exit_of_missing hphase (h.registers_eq ▸ hreg)]
      exact ⟨rfl, h.similar⟩

end Store

/-! ### The world around the store -/

namespace World

/-- Two worlds mirror each other if their stores do and their consoles are the same. -/
def Mirrored (size : Nat) (live : List LiveFrame) (u d : World) : Prop :=
  Store.Mirrored size live u.store d.store ∧ u.console = d.console

/-- What shows of two worlds that mirror each other. -/
def Similar (u d : World) : Prop := Store.Similar u.store d.store ∧ u.console = d.console

variable {α : Type} {size : Nat} {live : List LiveFrame} {u d : World}

theorem Mirrored.similar (h : Mirrored size live u d) : Similar u d := ⟨h.1.similar, h.2⟩

theorem agree_onStore {R : Store → Store → Prop} {x : Action Store α}
    (h : Agree Store.Similar R (x u.store) (x d.store)) (hc : u.console = d.console) :
    Agree Similar (fun u' d' => R u'.store d'.store ∧ u'.console = d'.console) (onStore x u)
      (onStore x d) := by
  rw [onStore_apply, onStore_apply]
  exact h.within (fun _ _ hR => ⟨hR, hc⟩) fun _ _ hE => ⟨hE, hc⟩

theorem respects_onStore {x : Action Store α}
    (h : Respects Store.Similar (Store.Mirrored size live) x) :
    Respects Similar (Mirrored size live) (onStore x) :=
  fun u d hm => agree_onStore (h u.store d.store hm.1) hm.2

theorem respects_onConsole (x : Action Console α) :
    Respects Similar (Mirrored size live) (onConsole x) := by
  intro u d h
  rw [onConsole_apply, onConsole_apply, ← h.2]
  exact Outcome.Agree.within_same (fun _ => ⟨h.1, rfl⟩) fun _ => ⟨h.1.similar, rfl⟩

theorem respects_note (event : Store → Event) :
    Respects Similar (Mirrored size live) (note event) := fun _ _ h => ⟨rfl, h⟩

theorem agree_enterFrame (h : Mirrored size live u d) (argument returnAddress : Word) :
    Agree Similar
      (fun u' d' => ∀ f : LiveFrame, f.fp = u'.store.fp → Mirrored size (f :: live) u' d')
      (enterFrame argument returnAddress u) (enterFrame argument returnAddress d) := by
  refine agree_bind (agree_onStore (Store.agree_enter h.1 argument returnAddress) h.2) ?_
  intro record u' d' hm
  exact ⟨rfl, fun f hf => ⟨hm.1 f hf, hm.2⟩⟩

theorem agree_leaveFrame (h : Mirrored size live u d) (hlive : live ≠ []) {record : CallRecord}
    (hphase : record.phase = .valueStaged) :
    Agree Similar (Mirrored size live.tail) (leaveFrame record u) (leaveFrame record d) := by
  obtain ⟨address, x, y, hu, hd, hm, hrecord⟩ | ⟨e, f, x, y, hu, hd, hkind, hs⟩ :=
    (Store.agree_exit h.1 hlive hphase).cases
  · rw [leaveFrame_of_ok hu, leaveFrame_of_ok hd, hrecord]
    exact ⟨rfl, hm, h.2⟩
  · rw [leaveFrame_of_error hu, leaveFrame_of_error hd]
    exact ⟨hkind, hs, h.2⟩

end World

namespace Intrinsic

open World (respects_onStore respects_onConsole respects_note agree_onStore)

variable {size : Nat} {live : List LiveFrame}

theorem respects_readToken : Respects World.Similar (World.Mirrored size live) readToken := by
  refine (respects_onConsole _).bind fun _ => (respects_onConsole _).bind fun token => ?_
  cases token <;> exact respects_pure _

theorem respects_complete (i : Intrinsic) (result : Except InputFailure Word) :
    Respects World.Similar (World.Mirrored size live) (complete i result) := by
  cases result with
  | ok value => exact respects_pure _
  | error e => exact (respects_note _).bind fun _ => respects_pure _

theorem respects_read (i : Intrinsic) {accept : Bytes → Action World (Except InputFailure Word)}
    (h : ∀ token, Respects World.Similar (World.Mirrored size live) (accept token)) :
    Respects World.Similar (World.Mirrored size live) (read i accept) := by
  refine respects_readToken.bind fun token => ?_
  cases token with
  | ok token => exact (h token).bind fun result => respects_complete i result
  | error e => exact respects_complete i (.error e)

theorem respects_print (bytes : Bytes) :
    Respects World.Similar (World.Mirrored size live) (print bytes) :=
  (respects_onConsole _).bind fun _ => respects_pure _

theorem respects_acceptFloat (token : Bytes) :
    Respects World.Similar (World.Mirrored size live) (acceptFloat token) := by
  rw [acceptFloat]
  cases Input.float token with
  | ok x => exact (respects_onStore (Store.respects_stageFloat x)).bind fun _ => respects_pure _
  | error e => exact respects_pure _

/-- Whether an intrinsic takes an address. -/
def takesAddress : Intrinsic → Bool
  | printString => true
  | readString => true
  | _ => false

/-- The body of an intrinsic that takes no address sees its argument and the console only. -/
theorem agree_body {u d : World} (h : World.Mirrored size live u d) (hlive : live ≠ [])
    {i : Intrinsic} (hi : i.takesAddress = false) :
    Agree World.Similar (World.Mirrored size live) (i.body u) (i.body d) := by
  refine agree_bind (agree_onStore (Store.agree_frameLoad h.1 hlive) h.2) fun argument => ?_
  cases i with
  | printInteger => exact respects_print _
  | printBoolean => exact respects_print _
  | printString => cases hi
  | printFloat =>
    exact (respects_onStore (Store.respects_stageFloat _)).bind fun _ => respects_print _
  | readInteger => exact respects_read _ fun _ => respects_pure _
  | readFloat => exact respects_read _ respects_acceptFloat
  | readString => cases hi
  | readBoolean => exact respects_read _ fun _ => respects_pure _

end Intrinsic

/-! ### Machines -/

/-- What a machine has beside its world and the direction of its stack. -/
structure Context where
  program : Program
  capabilities : CapabilitySet
  stepLimit : Option UInt64
  lastCall : Option CallRecord
  hostCalls : Nat
  steps : UInt64
  halted : Bool

namespace Machine

def context (m : Machine) : Context :=
  ⟨m.program, m.config.capabilities, m.config.stepLimit, m.lastCall, m.hostCalls, m.steps, m.halted⟩

/-- Two machines mirror each other if their worlds do and they have the rest in common. -/
def Mirrored (size : Nat) (live : List LiveFrame) (u d : Machine) : Prop :=
  World.Mirrored size live u.toWorld d.toWorld ∧ u.context = d.context

/-- What shows of two machines that mirror each other. -/
def Similar (u d : Machine) : Prop := World.Similar u.toWorld d.toWorld ∧ u.context = d.context

variable {α : Type} {size : Nat} {live : List LiveFrame} {u d : Machine}

theorem Mirrored.similar (h : Mirrored size live u d) : Similar u d := ⟨h.1.similar, h.2⟩

theorem agree_onWorld {R : World → World → Prop} {x : Action World α}
    (h : Agree World.Similar R (x u.toWorld) (x d.toWorld)) (hc : u.context = d.context) :
    Agree Similar (fun u' d' => R u'.toWorld d'.toWorld ∧ u'.context = d'.context) (onWorld x u)
      (onWorld x d) := by
  rw [onWorld_apply, onWorld_apply]
  exact h.within (fun _ _ hR => ⟨hR, hc⟩) fun _ _ hE => ⟨hE, hc⟩

theorem respects_onWorld {x : Action World α}
    (h : Respects World.Similar (World.Mirrored size live) x) :
    Respects Similar (Mirrored size live) (onWorld x) :=
  fun u d hm => agree_onWorld (h u.toWorld d.toWorld hm.1) hm.2

theorem respects_onStore {x : Action Store α}
    (h : Respects Store.Similar (Store.Mirrored size live) x) :
    Respects Similar (Mirrored size live) (onStore x) :=
  respects_onWorld (World.respects_onStore h)

theorem agree_onStore {x : Action Store α} (hm : Mirrored size live u d)
    (h : Agree Store.Similar (Store.Mirrored size live) (x u.store) (x d.store)) :
    Agree Similar (Mirrored size live) (onStore x u) (onStore x d) :=
  agree_onWorld (World.agree_onStore h hm.1.2) hm.2

theorem respects_fetch (r : Register) : Respects Similar (Mirrored size live) (fetch r) :=
  respects_onStore (Store.respects_register _)

theorem respects_assign (r : Register) (v : Word) :
    Respects Similar (Mirrored size live) (assign r v) :=
  respects_onStore (Store.respects_setRegister _ _)

theorem Mirrored.statusCode_eq (h : Mirrored size live u d) : u.statusCode = d.statusCode := by
  have hlast : u.lastCall = d.lastCall := congrArg Context.lastCall h.2
  rw [statusCode, statusCode, hlast]

end Machine

/-- Whether an instruction looks at no address: it does not access memory other than by pushing,
popping and loading the argument of the running body. -/
def Instruction.addressFree : Instruction → Bool
  | .load _ _ => false
  | .store _ _ => false
  | .storeFrame _ _ => false
  | .loadFrame _ offset => offset = Frame.argumentOffset
  | _ => true

/-- Whether the next move loads from the active frame or is about to leave it. -/
def Control.usesFrame : Control → Bool
  | .inside (.loadFrame _ _ :: _) _ => true
  | .inside [] (.ret _) => true
  | _ => false

/-- Whether the next move pops a word. -/
def Control.pops : Control → Bool
  | .inside (.pop _ :: _) _ => true
  | _ => false

/-- The next move keeps to the stack: frames are used while one is live, and no cell of a live frame
is popped. -/
def Moment.Orderly (a : Moment) : Prop :=
  (a.control.usesFrame = true → a.live ≠ []) ∧
    (a.control.pops = true → Store.PopsWord a.live a.machine.store)

instance (live : List LiveFrame) (s : Store) : Decidable (Store.PopsWord live s) :=
  LiveFrame.decidableCells _ _ _

instance (a : Moment) : Decidable a.Orderly := inferInstanceAs (Decidable (_ ∧ _))

namespace Machine

variable {α : Type} {size : Nat} {live : List LiveFrame} {u d : Machine}

/-- **An instruction that looks at no address treats mirrored machines alike.** -/
theorem agree_execute (h : Mirrored size live u d) {i : Instruction} (hi : i.addressFree = true)
    {rest : List Instruction} {t : Transfer}
    (ho : Moment.Orderly ⟨.inside (i :: rest) t, u, live⟩) :
    Agree Similar (Mirrored size live) (execute i u) (execute i d) := by
  cases i with
  | constant dst value => exact respects_assign dst value u d h
  | copy dst src => exact (respects_fetch src).bind (fun v => respects_assign dst v) u d h
  | label dst l => exact respects_assign dst _ u d h
  | load dst operand => cases hi
  | store operand src => cases hi
  | loadFrame dst offset =>
    -- The argument is the one cell of a frame that both layouts agree on.
    obtain rfl : offset = Frame.argumentOffset := of_decide_eq_true hi
    refine agree_bind (agree_onStore h (Store.agree_frameLoad h.1.1 (ho.1 rfl))) fun v => ?_
    exact respects_assign dst v
  | storeFrame offset src => cases hi
  | binary op dst lhs rhs =>
    refine (respects_fetch lhs).bind (fun a => (respects_fetch rhs).bind fun b => ?_) u d h
    refine (respects_ofExcept (fun _ _ hm => hm.similar) _).bind fun v => ?_
    exact respects_assign dst v
  | unary op dst src => exact (respects_fetch src).bind (fun v => respects_assign dst _) u d h
  | push src =>
    exact (respects_fetch src).bind (fun v => respects_onStore (Store.respects_push v)) u d h
  | pop dst =>
    refine agree_bind (agree_onStore h (Store.agree_pop h.1.1 (ho.2 rfl))) fun v => ?_
    exact respects_assign dst v
  | status dst =>
    show Agree _ _ (assign dst u.statusCode u) (assign dst d.statusCode d)
    rw [← h.statusCode_eq]
    exact respects_assign dst _ u d h

end Machine

end WordMachine

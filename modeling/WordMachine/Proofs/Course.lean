/-
The course of an execution.

A machine that runs changes its store, writes to its console and notes events, and there is much
that it never does: it does not change its program, it does not take back what it has written, it
counts a step only when it dispatches a block.

* `Store.Inherited` are the properties of operations on the store that carry over to what is made of
  them, and `Machine.StoreAlone` says that an action is such an operation and has the property: for
  instructions this is said once (`storeAlone_execute`), for all that is asked about them;
* `Machine.Quiet` is what holds between the two ends of a move that dispatches no block
  (`leads_quiet_advance`), `Machine.Later` what holds from one state to any later one;
* `Machine.leads_drive`, `Moment.Reaches.later`: from moves to executions;
* `Machine.flushed_eq`: flushing at the end leaves the machine alone.
-/
import Mathlib.Tactic.Choose
import WordMachine.Proofs.Moment

namespace WordMachine

theorem Outcome.state_within {σ τ α : Type} (f : τ → σ) (o : Outcome τ α) :
    Outcome.state (Outcome.within f o) = f (Outcome.state o) := by
  cases o <;> rfl

namespace Action

variable {σ α β : Type} {R : σ → σ → Prop}

/-! ### Parts of a state -/

variable {τ : Type} {part : τ → σ}

/-- A relation between parts of states, as one between the states. -/
def Through (part : τ → σ) (R : σ → σ → Prop) (a b : τ) : Prop := R (part a) (part b)

instance [Std.Refl R] : Std.Refl (Through part R) := ⟨fun a => Std.Refl.refl (part a)⟩

instance [IsTrans σ R] : IsTrans τ (Through part R) :=
  ⟨fun _ _ _ h h' => IsTrans.trans (r := R) _ _ _ h h'⟩

/-- An action on a part of the state leads there as it does alone. -/
theorem Leads.focus [Inhabited σ] {put : σ → τ → τ} (hput : ∀ s t, part (put s t) = s)
    {x : Action σ α} (hx : Leads R x) : Leads (Through part R) (x.focus part put) := by
  intro t
  rw [Through, Action.focus, Outcome.state_within, hput]
  exact hx (part t)

end Action

open WordMachine.Action (Leads leads_pure leads_get leads_fail leads_ofExcept)

/-! ### Writing and noting -/

/-- A sink was written to, if anything was done to it. -/
structure Sink.Extends (k k' : Sink) : Prop where
  written : k.written.toList <+: k'.written.toList
  flushFailure : k'.flushFailure = k.flushFailure

theorem Sink.Extends.rfl {k : Sink} : k.Extends k := ⟨List.prefix_rfl, Eq.refl _⟩

theorem Sink.Extends.trans {k k' k'' : Sink} (h : k.Extends k') (h' : k'.Extends k'') :
    k.Extends k'' :=
  ⟨h.written.trans h'.written, h'.flushFailure.trans h.flushFailure⟩

/-- Whether an event is the dispatch of a block. -/
def Event.isDispatch : Event → Bool
  | .dispatch .. => true
  | _ => false

namespace World

/-- How many dispatches of blocks were noted. -/
def dispatches (w : World) : Nat := w.journal.countP Event.isDispatch

/-- The sink was written to, if anything was done to it, and no dispatch was noted. -/
structure Quiet (w w' : World) : Prop where
  sink : w.console.sink.Extends w'.console.sink
  dispatches : w'.dispatches = w.dispatches

instance : Std.Refl Quiet := ⟨fun _ => ⟨.rfl, rfl⟩⟩

instance : IsTrans World Quiet where
  trans _ _ _ h h' := ⟨h.sink.trans h'.sink, h'.dispatches.trans h.dispatches⟩

variable {α : Type}

theorem leads_onStore (x : Action Store α) : Leads Quiet (onStore x) := by
  intro w
  rw [onStore_apply, Outcome.state_within]
  exact ⟨.rfl, rfl⟩

theorem leads_onConsole {x : Action Console α}
    (h : Leads (fun c c' => c.sink.Extends c'.sink) x) : Leads Quiet (onConsole x) := by
  intro w
  rw [onConsole_apply, Outcome.state_within]
  exact ⟨h w.console, rfl⟩

/-- The store may change and an event may be noted, if it is no dispatch. -/
theorem quiet_push (w : World) (s : Store) {e : Event} (h : e.isDispatch = false) :
    Quiet w { w with store := s, journal := w.journal.push e } := by
  refine ⟨.rfl, ?_⟩
  show (w.journal.push e).countP Event.isDispatch = w.dispatches
  rw [Array.countP_push, h]
  rfl

theorem leads_note {event : Store → Event} (h : ∀ s, (event s).isDispatch = false) :
    Leads Quiet (note event) := fun w => quiet_push w w.store (h w.store)

theorem leads_enterFrame (argument returnAddress : Word) :
    Leads Quiet (enterFrame argument returnAddress) :=
  (leads_onStore _).bind fun _ => (leads_note fun _ => rfl).bind fun _ => leads_pure _

theorem leads_leaveFrame (record : CallRecord) : Leads Quiet (leaveFrame record) := by
  intro w
  cases h : Frame.exit ⟨w.store, record⟩ with
  | ok address a =>
    rw [leaveFrame_of_ok h]
    exact quiet_push w a.store rfl
  | error f a =>
    rw [leaveFrame_of_error h]
    exact ⟨.rfl, rfl⟩

end World

namespace Console

theorem leads_write (bytes : Bytes) : Leads (fun c c' => c.sink.Extends c'.sink) (write bytes) := by
  intro c
  rw [write, onSink_apply, Outcome.state_within, Sink.write]
  split
  · exact ⟨by simp [Outcome.state], rfl⟩
  · exact ⟨by simp [Outcome.state], rfl⟩

theorem leads_flush : Leads (fun c c' => c.sink.Extends c'.sink) flush := by
  intro c
  rw [flush, onSink_apply, Outcome.state_within, Sink.flush]
  cases c.sink.flushFailure <;> exact .rfl

theorem leads_nextToken : Leads (fun c c' => c.sink.Extends c'.sink) nextToken := by
  intro c
  rw [nextToken, onSource_apply, Outcome.state_within]
  exact .rfl

end Console

namespace Intrinsic

open World (Quiet leads_onStore leads_onConsole leads_note)

theorem leads_print (bytes : Bytes) : Leads Quiet (print bytes) :=
  (leads_onConsole (Console.leads_write bytes)).bind fun _ => leads_pure _

theorem leads_complete (i : Intrinsic) (result : Except InputFailure Word) :
    Leads Quiet (complete i result) := by
  cases result with
  | ok value => exact leads_pure _
  | error e => exact (leads_note fun _ => rfl).bind fun _ => leads_pure _

theorem leads_read (i : Intrinsic) {accept : Bytes → Action World (Except InputFailure Word)}
    (h : ∀ token, Leads Quiet (accept token)) : Leads Quiet (read i accept) := by
  refine Leads.bind (x := readToken) ?_ fun token => ?_
  · refine (leads_onConsole Console.leads_flush).bind fun _ => ?_
    refine (leads_onConsole Console.leads_nextToken).bind fun token => ?_
    cases token <;> exact leads_pure _
  · cases token with
    | ok token => exact (h token).bind fun result => leads_complete i result
    | error e => exact leads_complete i (.error e)

theorem leads_body (i : Intrinsic) : Leads Quiet i.body := by
  refine (leads_onStore _).bind fun argument => ?_
  cases i with
  | printInteger => exact leads_print _
  | printBoolean => exact leads_print _
  | printString => exact (leads_onStore _).bind fun _ => leads_print _
  | printFloat => exact (leads_onStore _).bind fun _ => leads_print _
  | readInteger => exact leads_read _ fun _ => leads_pure _
  | readBoolean => exact leads_read _ fun _ => leads_pure _
  | readFloat =>
    refine leads_read _ fun token => ?_
    rw [acceptFloat]
    cases Input.float token with
    | ok x => exact (leads_onStore _).bind fun _ => leads_pure _
    | error e => exact leads_pure _
  | readString =>
    refine leads_read _ fun token => ?_
    rw [acceptString]
    cases Input.string token with
    | ok bytes => exact (leads_onStore _).bind fun _ => leads_pure _
    | error e => exact leads_pure _

end Intrinsic

/-! ### Operations on the store -/

namespace Store

/-- A property of operations on the store. -/
abbrev Property := (α : Type) → Action Store α → Prop

/-- A property that whatever is made of the operations that programs use inherits from them. -/
structure Inherited (Q : Property) : Prop where
  pure : ∀ {α : Type} (a : α), Q α (pure a)
  bind : ∀ {α β : Type} {x : Action Store α} {f : α → Action Store β},
    Q α x → (∀ a, Q β (f a)) → Q β (x >>= f)
  apply : ∀ (op : BinaryOp) (a b : Word), Q Word (Action.ofExcept (op.apply a b))
  register : ∀ index, Q Word (register index)
  setRegister : ∀ index value, Q Unit (setRegister index value)
  load : ∀ address, Q Word (load address)
  store : ∀ address value, Q Unit (store address value)
  frameAddress : ∀ offset, Q Word (frameAddress offset)
  reserve : Q Word (onStack (Stack.reserve 1))
  release : Q Word (onStack (Stack.release 1))

variable {Q : Property}

theorem Inherited.frameLoad (h : Inherited Q) (offset : Word) : Q Word (frameLoad offset) :=
  h.bind (h.frameAddress offset) h.load

theorem Inherited.frameStore (h : Inherited Q) (offset value : Word) :
    Q Unit (frameStore offset value) :=
  h.bind (h.frameAddress offset) fun a => h.store a value

theorem Inherited.push (h : Inherited Q) (value : Word) : Q Unit (push value) :=
  h.bind h.reserve fun slot => h.store slot value

theorem Inherited.pop (h : Inherited Q) : Q Word pop := h.bind h.release h.load

/-- No property at all. -/
theorem inherited_true : Inherited fun _ _ => True := by
  constructor <;> intros <;> trivial

end Store

namespace Machine

variable {α β : Type}

/-! ### Instructions work on the store -/

theorem onStore_of_ok {x : Action Store α} {m : Machine} {a : α} {s : Store}
    (h : x m.store = .ok a s) : onStore x m = .ok a { m with store := s } :=
  onStore_eq_ok.mpr ⟨s, h, rfl⟩

theorem onStore_of_error {x : Action Store α} {m : Machine} {f : Fault} {s : Store}
    (h : x m.store = .error f s) : onStore x m = .error f { m with store := s } := by
  rw [onStore, onWorld_apply, World.onStore_apply, h]
  rfl

theorem onStore_bind (x : Action Store α) (f : α → Action Store β) :
    onStore (x >>= f) = onStore x >>= fun a => onStore (f a) := by
  funext m
  cases h : x m.store with
  | ok a s =>
    rw [Action.bind_of_ok (onStore_of_ok h)]
    cases h' : f a s with
    | ok b t =>
      rw [onStore_of_ok ((Action.bind_of_ok h).trans h')]
      exact (onStore_of_ok (m := { m with store := s }) h').symm
    | error e t =>
      rw [onStore_of_error ((Action.bind_of_ok h).trans h')]
      exact (onStore_of_error (m := { m with store := s }) h').symm
  | error e s =>
    rw [Action.bind_of_error (onStore_of_error h), onStore_of_error (Action.bind_of_error h)]

/-- An action is an operation on the store, and one that has a property; of the rest of the machine
it looks at no more than the status of the call that completed last. -/
def StoreAlone (Q : Store.Property) (x : Action Machine α) : Prop :=
  ∃ y : Word → Action Store α, (∀ status, Q α (y status)) ∧ ∀ m, x m = onStore (y m.statusCode) m

variable {Q : Store.Property}

theorem storeAlone_onStore {y : Action Store α} (hy : Q α y) : StoreAlone Q (onStore y) :=
  ⟨fun _ => y, fun _ => hy, fun _ => rfl⟩

section

variable (hQ : Store.Inherited Q)

include hQ

theorem storeAlone_pure (a : α) : StoreAlone Q (pure a : Action Machine α) :=
  ⟨fun _ => pure a, fun _ => hQ.pure a, fun _ => rfl⟩

theorem StoreAlone.bind {x : Action Machine α} {f : α → Action Machine β} (hx : StoreAlone Q x)
    (hf : ∀ a, StoreAlone Q (f a)) : StoreAlone Q (x >>= f) := by
  obtain ⟨y, hQy, hy⟩ := hx
  choose z hQz hz using hf
  refine ⟨fun status => y status >>= fun a => z a status,
    fun status => hQ.bind (hQy status) fun a => hQz a status, fun m => ?_⟩
  rw [onStore_bind]
  cases h : y m.statusCode m.store with
  | ok a s =>
    have hx : x m = .ok a { m with store := s } := (hy m).trans (onStore_of_ok h)
    -- The status is the same for the second part, since the first has changed only the store.
    rw [Action.bind_of_ok hx, Action.bind_of_ok (onStore_of_ok h), hz]
    rfl
  | error e s =>
    have hx : x m = .error e { m with store := s } := (hy m).trans (onStore_of_error h)
    rw [Action.bind_of_error hx, Action.bind_of_error (onStore_of_error h)]

theorem storeAlone_fetch (r : Register) : StoreAlone Q (fetch r) :=
  storeAlone_onStore (hQ.register _)

theorem storeAlone_assign (r : Register) (value : Word) : StoreAlone Q (assign r value) :=
  storeAlone_onStore (hQ.setRegister _ _)

theorem storeAlone_address (operand : Operand) : StoreAlone Q (address operand) := by
  cases operand with
  | absolute a => exact storeAlone_pure hQ a
  | indirect r => exact storeAlone_fetch hQ r

theorem storeAlone_apply (op : BinaryOp) (a b : Word) :
    StoreAlone Q (Action.ofExcept (op.apply a b)) := by
  refine ⟨fun _ => Action.ofExcept (op.apply a b), fun _ => hQ.apply op a b, fun m => ?_⟩
  cases op.apply a b <;> rfl

/-- **An instruction is an operation on the store**, and has every property that it can inherit from
what it is made of. -/
theorem storeAlone_execute (i : Instruction) : StoreAlone Q (execute i) := by
  have hfetch := storeAlone_fetch hQ
  have hassign := storeAlone_assign hQ
  cases i with
  | constant dst value => exact hassign dst value
  | copy dst src => exact (hfetch src).bind hQ fun value => hassign dst value
  | label dst l => exact hassign dst _
  | load dst operand =>
    refine (storeAlone_address hQ operand).bind hQ fun a => ?_
    exact (storeAlone_onStore (hQ.load a)).bind hQ fun value => hassign dst value
  | store operand src =>
    refine (storeAlone_address hQ operand).bind hQ fun a => (hfetch src).bind hQ fun value => ?_
    exact storeAlone_onStore (hQ.store a value)
  | loadFrame dst offset =>
    exact (storeAlone_onStore (hQ.frameLoad offset)).bind hQ fun value => hassign dst value
  | storeFrame offset src =>
    exact (hfetch src).bind hQ fun value => storeAlone_onStore (hQ.frameStore offset value)
  | binary op dst lhs rhs =>
    refine (hfetch lhs).bind hQ fun a => (hfetch rhs).bind hQ fun b => ?_
    exact (storeAlone_apply hQ op a b).bind hQ fun value => hassign dst value
  | unary op dst src => exact (hfetch src).bind hQ fun a => hassign dst _
  | push src => exact (hfetch src).bind hQ fun value => storeAlone_onStore (hQ.push value)
  | pop dst => exact (storeAlone_onStore hQ.pop).bind hQ fun value => hassign dst value
  | status dst =>
    exact ⟨fun status => Store.setRegister dst.index.toNat status,
      fun status => hQ.setRegister _ status, fun m => rfl⟩

theorem storeAlone_executeAll (is : List Instruction) : StoreAlone Q (executeAll is) := by
  induction is with
  | nil => exact storeAlone_pure hQ _
  | cons i is ih => exact (storeAlone_execute hQ i).bind hQ fun _ => ih

theorem storeAlone_active : StoreAlone Q (onStore Frame.active) :=
  storeAlone_onStore (hQ.bind (hQ.frameLoad _) fun _ => hQ.bind (hQ.frameLoad _) fun _ => hQ.pure _)

theorem storeAlone_returned (value : Option Register) : StoreAlone Q (returned value) := by
  cases value with
  | none => exact storeAlone_pure hQ _
  | some r => exact (storeAlone_fetch hQ r).bind hQ fun _ => storeAlone_pure hQ _

end

/-! ### Moves that dispatch no block -/

/-- Between two states no block was dispatched: what a machine is set up with is the same, no step
was counted, and its world shows as much. -/
structure Quiet (m m' : Machine) : Prop where
  world : m.toWorld.Quiet m'.toWorld
  program : m'.program = m.program
  config : m'.config = m.config
  hostCalls : m'.hostCalls = m.hostCalls
  steps : m'.steps = m.steps

instance : Std.Refl Quiet := ⟨fun m => ⟨Std.Refl.refl m.toWorld, rfl, rfl, rfl, rfl⟩⟩

instance : IsTrans Machine Quiet where
  trans _ _ _ h h' :=
    ⟨IsTrans.trans _ _ _ h.world h'.world, h'.program.trans h.program, h'.config.trans h.config,
      h'.hostCalls.trans h.hostCalls, h'.steps.trans h.steps⟩

theorem leads_onWorld {x : Action World α} (h : Leads World.Quiet x) : Leads Quiet (onWorld x) := by
  intro m
  rw [onWorld_apply, Outcome.state_within]
  exact ⟨h m.toWorld, rfl, rfl, rfl, rfl⟩

theorem StoreAlone.leads {x : Action Machine α} (h : StoreAlone Q x) : Leads Quiet x := by
  obtain ⟨y, -, hy⟩ := h
  intro m
  rw [hy]
  exact leads_onWorld (World.leads_onStore _) m

theorem sustained_quiet : Sustained Quiet where
  execute i := (storeAlone_execute Store.inherited_true i).leads
  fetch r := (storeAlone_fetch Store.inherited_true r).leads
  active := (storeAlone_active Store.inherited_true).leads
  enter _ _ := leads_onWorld (World.leads_enterFrame _ _)
  leave record := by
    refine (leads_onWorld (World.leads_leaveFrame record)).bind fun _ => ?_
    exact Leads.bind (fun m => ⟨Std.Refl.refl m.toWorld, rfl, rfl, rfl, rfl⟩) fun _ => leads_pure _

/-- **Only a dispatch is counted and noted as such.** -/
theorem leads_quiet_advance {c : Control} (hc : ∀ l, c ≠ .dispatch l) :
    Leads Quiet (advance c) := by
  refine sustained_quiet.advance (fun l hl => absurd hl (hc l)) (fun i argument record _ => ?_)
    fun _ m => ⟨Std.Refl.refl m.toWorld, rfl, rfl, rfl, rfl⟩
  exact ⟨leads_onWorld (World.leads_note fun _ => rfl), leads_onWorld (Intrinsic.leads_body i)⟩

/-! ### From moves to executions -/

variable {R : Machine → Machine → Prop} [Std.Refl R] [IsTrans Machine R]

/-- What holds along the moves of a block holds along the rest of a block. -/
theorem leads_flow (h : ∀ c : Control, c.Running → Leads R (advance c)) (c : Control) :
    Leads R c.flow := by
  intro m
  -- Induction on the rank, which falls with every move of a block.
  induction hk : c.rank using Nat.strongRecOn generalizing c m with
  | ind k ih =>
    by_cases hc : c.Running
    · cases ha : advance c m with
      | ok c' m' =>
        rw [flow_of_ok hc ha]
        have hrest := ih c'.rank (hk ▸ rank_of_advance hc ha) c' m' rfl
        exact IsTrans.trans _ _ _ ((h c hc).of_ok ha) hrest
      | error f m' =>
        rw [flow_of_error hc ha]
        exact (h c hc).of_error ha
    · cases c with
      | dispatch l => exact Std.Refl.refl m
      | gone d => cases d <;> exact Std.Refl.refl m
      | _ => exact absurd trivial hc

theorem leads_step (h : ∀ c, Leads R (advance c)) (l : Label) : Leads R (step l) := by
  rw [step_eq_advance]
  exact (h (.dispatch l)).bind fun c => leads_flow (fun c _ => h c) c

/-- **What holds along moves holds along executions.** -/
theorem leads_drive (h : ∀ c, Leads R (advance c)) {fuel : Nat} {o : Outcome Machine Flow}
    {r : Outcome Machine Departure} (hr : drive fuel o = some r) :
    R (Outcome.state o) (Outcome.state r) := by
  induction fuel generalizing o with
  | zero =>
    rcases o with ⟨l | _ | _, m⟩ | ⟨f, m⟩
    · cases hr
    all_goals
      cases hr
      exact Std.Refl.refl m
  | succ fuel ih =>
    rcases o with ⟨l | _ | _, m⟩ | ⟨f, m⟩
    · exact IsTrans.trans _ _ _ (leads_step h l m) (ih hr)
    all_goals
      cases hr
      exact Std.Refl.refl m

theorem leads_drive_flow (h : ∀ c, Leads R (advance c)) {fuel : Nat} {c : Control} {m : Machine}
    {r : Outcome Machine Departure} (hr : drive fuel (c.flow m) = some r) :
    R m (Outcome.state r) :=
  IsTrans.trans _ _ _ (leads_flow (fun c _ => h c) c m) (leads_drive h hr)

theorem leads_quiet_flow (c : Control) : Leads Quiet c.flow := by
  refine leads_flow (fun c hc => leads_quiet_advance ?_) c
  rintro l rfl
  exact hc

/-- What holds from one state of an execution to a later one. -/
structure Later (m m' : Machine) : Prop where
  program : m'.program = m.program
  config : m'.config = m.config
  hostCalls : m'.hostCalls = m.hostCalls
  sink : m.console.sink.Extends m'.console.sink

theorem Quiet.later {m m' : Machine} (h : Quiet m m') : Later m m' :=
  ⟨h.program, h.config, h.hostCalls, h.world.sink⟩

instance : Std.Refl Later := ⟨fun m => Quiet.later (Std.Refl.refl m)⟩

instance : IsTrans Machine Later where
  trans _ _ _ h h' :=
    ⟨h'.program.trans h.program, h'.config.trans h.config, h'.hostCalls.trans h.hostCalls,
      h.sink.trans h'.sink⟩

theorem leads_later_advance (c : Control) : Leads Later (advance c) := by
  by_cases hc : ∃ l, c = .dispatch l
  · obtain ⟨l, rfl⟩ := hc
    refine leads_dispatch (fun m => ?_) fun m => ⟨rfl, rfl, rfl, .rfl⟩
    rw [state_count]
    exact ⟨rfl, rfl, rfl, .rfl⟩
  · exact fun m => (leads_quiet_advance (fun l hl => hc ⟨l, hl⟩) m).later

end Machine

theorem Moment.Reaches.later {a b : Moment} (h : Reaches a b) :
    a.machine.Later b.machine := by
  induction h with
  | refl => exact Std.Refl.refl a.machine
  | tail _ hmove ih =>
    exact IsTrans.trans _ _ _ ih ((Machine.leads_later_advance _).of_ok hmove.1)

/-! ### The end of an execution -/

/-- Flushing leaves the machine alone: it can only turn the outcome into a failure. -/
theorem Machine.flushed_eq {α : Type} (o : Outcome Machine α) :
    flushed o =
      match (Outcome.state o).console.sink.flushFailure with
      | none => o
      | some text => .error (.stream text) (Outcome.state o) := by
  have hflush : ∀ m : Machine, onConsole Console.flush m =
      match m.console.sink.flushFailure with
      | none => .ok () m
      | some text => .error (.stream text) m := by
    intro m
    rw [onConsole, onWorld_apply, World.onConsole_apply, Console.flush, Console.onSink_apply,
      Sink.flush]
    cases m.console.sink.flushFailure <;> rfl
  cases o with
  | ok a m =>
    rw [flushed, hflush]
    show _ = match m.console.sink.flushFailure with | none => _ | some text => _
    cases m.console.sink.flushFailure <;> rfl
  | error f m =>
    rw [flushed, hflush]
    show _ = match m.console.sink.flushFailure with | none => _ | some text => _
    cases m.console.sink.flushFailure <;> rfl

theorem Machine.state_flushed {α : Type} (o : Outcome Machine α) :
    Outcome.state (flushed o) = Outcome.state o := by
  rw [flushed_eq]
  cases (Outcome.state o).console.sink.flushFailure <;> rfl

theorem Machine.flushed_of_none {α : Type} {o : Outcome Machine α}
    (h : (Outcome.state o).console.sink.flushFailure = none) : flushed o = o := by
  rw [flushed_eq, h]

theorem Machine.flushed_of_some {α : Type} {o : Outcome Machine α} {text : String}
    (h : (Outcome.state o).console.sink.flushFailure = some text) :
    flushed o = .error (.stream text) (Outcome.state o) := by
  rw [flushed_eq, h]

end WordMachine

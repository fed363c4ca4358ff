/-
Capabilities fail closed.

An intrinsic is refused before its frame is entered unless the host grants all that it asks for, and
nothing but the body of an intrinsic touches the source of the console or the scratch cell of the
store.  So a program without the right to read input cannot tell one input from another and leaves
it unread, and a program without the right to use numbers leaves the scratch cell alone.

* `Machine.Secluded` is a view of a machine that nothing but bodies of intrinsics can touch, and
  `Control.Allowed` says that only bodies of allowed intrinsics are run;
* `Session.secluded_of_reaches` and `Session.secluded_of_serve`: what no allowed body touches is
  left alone throughout;
* `capabilities_confine` puts this together with what a refused call does.
-/
import WordMachine.Proofs.Dispatch
import WordMachine.Proofs.Variation

namespace WordMachine

open WordMachine.Action (Keeps Same keeps_pure keeps_get keeps_ofExcept CommutesAt
  commutesAt_pure)

/-- An intrinsic that is allowed asks for nothing that is not granted. -/
theorem CapabilitySet.not_mem_needs {s : CapabilitySet} {c : Capability} (hc : s.contains c = false)
    {i : Intrinsic} (h : s.allows i = true) : c ∉ i.needs := by
  intro hmem
  have hgranted := List.all_eq_true.mp h c hmem
  rw [hc] at hgranted
  cases hgranted

/-! ### What only bodies of intrinsics touch -/

namespace Machine

variable {γ : Type} {V : Machine → γ}

/-- A view of a machine that nothing but the bodies of intrinsics can touch. -/
structure Secluded (V : Machine → γ) : Prop extends Sustained (Same V) where
  note : ∀ event, Keeps V (onWorld (World.note event))
  count : Keeps V count
  halt : ∀ m, V { m with halted := true } = V m
  hostCalls : ∀ m n, V { m with hostCalls := n } = V m

/-- A move that does not run the body of an intrinsic leaves such a view alone. -/
theorem Secluded.advance (h : Secluded V) {c : Control}
    (hbody : ∀ i argument record, c = .serving i argument record → Keeps V (onWorld i.body)) :
    Keeps V (advance c) :=
  h.toSustained.advance (fun _ _ => ⟨h.count, h.note _⟩)
    (fun i argument record hc => ⟨h.note _, hbody i argument record hc⟩) fun _ => h.halt

end Machine

/-! ### Only allowed bodies are run -/

/-- If the body of an intrinsic is to be run, then the intrinsic is allowed. -/
def Control.Allowed (s : CapabilitySet) : Control → Prop
  | serving i _ _ => s.allows i = true
  | _ => True

namespace Session

variable {γ : Type} {V : Machine → γ} {s : Session} {request : HostRequest} {start a : Moment}

theorem allowed_of_reaches (hstart : request.start? s.machine = some start)
    (ha : Moment.Reaches start a) : a.control.Allowed s.machine.config.capabilities := by
  rcases Relation.ReflTransGen.cases_tail ha with rfl | ⟨b, hb, hmove⟩
  · rcases HostRequest.start?_eq_some.mp hstart with ⟨-, -, rfl⟩ | ⟨_, _, -, rfl⟩ <;> trivial
  · obtain ⟨n, hn⟩ := HostRequest.exists_of_start? hstart
    have hconfig : b.machine.config = s.machine.config := by
      rw [Moment.Reaches.later hb |>.config, hn]
    obtain ⟨c, m, live⟩ := a
    obtain ⟨c', m', live'⟩ := b
    cases hmove.move with
    | enterIntrinsic hallowed _ => exact hconfig ▸ hallowed
    | _ => trivial

variable (hV : Machine.Secluded V)
  (hbody : ∀ i, s.machine.config.capabilities.allows i = true → Keeps V (Machine.onWorld i.body))

include hV hbody

theorem keeps_advance_of_reaches (hstart : request.start? s.machine = some start)
    (ha : Moment.Reaches start a) : Keeps V (Machine.advance a.control) := by
  refine hV.advance fun i argument record hc => hbody i ?_
  have hallowed := allowed_of_reaches hstart ha
  rwa [hc] at hallowed

/-- **What no allowed body touches is left alone in every moment of an execution.** -/
theorem secluded_of_reaches (hstart : request.start? s.machine = some start)
    (ha : Moment.Reaches start a) : V a.machine = V s.machine := by
  refine ha.invariant (P := fun b => V b.machine = V s.machine) ?_ fun b c hb hview hmove => ?_
  · obtain ⟨n, hn⟩ := HostRequest.exists_of_start? hstart
    rw [hn, hV.hostCalls]
  · rw [(keeps_advance_of_reaches hV hbody hstart hb).of_ok hmove.1, hview]

/-- **What no allowed body touches is left alone by runs and calls**, whether they succeed or
fail. -/
theorem secluded_of_serve (hrequest : request = .run ∨ request.isCall = true) {fuel : Nat}
    {o : Outcome Session Answer} (ho : s.serve fuel request = some o) :
    V (Outcome.state o).machine = V s.machine := by
  have hclose : ∀ m, V (request.close m) = V m := by
    intro m
    cases request with
    | call callee argument => exact hV.hostCalls m _
    | run | reset | direct _ => rfl
  cases served_of_serve ho with
  | @driven _ start r hstart hr =>
    rw [HostRequest.state_conclude]
    refine (hclose _).trans ?_
    obtain ⟨n, hn⟩ := Machine.pursue_of_drive hr
    cases r with
    | ok d m =>
      obtain ⟨live, hreach⟩ := Moment.reaches_of_pursue hn
      exact secluded_of_reaches hV hbody hstart hreach
    | error f m =>
      obtain ⟨b, hb, hfail⟩ := Moment.reaches_of_pursue_error hn
      have hview := keeps_advance_of_reaches hV hbody hstart hb b.machine
      rw [hfail] at hview
      exact hview.trans (secluded_of_reaches hV hbody hstart hb)
  | idle _ => rfl
  | reset => rcases hrequest with h | h <;> cases h
  | direct request => rcases hrequest with h | h <;> cases h

end Session

/-! ### The source -/

/-- The source of a machine's console. -/
def Machine.source (m : Machine) : Source := m.console.source

namespace Intrinsic

theorem keeps_source_print (bytes : Bytes) : Keeps (fun w => w.console.source) (print bytes) := by
  refine Keeps.bind (fun w => ?_) fun _ => keeps_pure _
  rw [World.onConsole_apply, Outcome.state_within, Console.write, Console.onSink_apply,
    Outcome.state_within]

theorem keeps_source_onStore {α : Type} (x : Action Store α) :
    Keeps (fun w => w.console.source) (World.onStore x) := by
  intro w
  rw [World.onStore_apply, Outcome.state_within]

/-- An intrinsic that does not ask for input reads none. -/
theorem keeps_source_body {i : Intrinsic} (h : .input ∉ i.needs) :
    Keeps (fun w => w.console.source) i.body := by
  refine (keeps_source_onStore _).bind fun argument => ?_
  cases i with
  | printInteger => exact keeps_source_print _
  | printBoolean => exact keeps_source_print _
  | printString => exact (keeps_source_onStore _).bind fun _ => keeps_source_print _
  | printFloat => exact (keeps_source_onStore _).bind fun _ => keeps_source_print _
  | readInteger | readFloat | readString | readBoolean => exact absurd List.mem_cons_self h

end Intrinsic

namespace Machine

theorem keeps_source_onWorld {α : Type} {x : Action World α}
    (h : Keeps (fun w => w.console.source) x) : Keeps source (onWorld x) := by
  intro m
  rw [onWorld_apply, Outcome.state_within]
  exact h m.toWorld

theorem StoreAlone.keeps_source {α : Type} {Q : Store.Property} {x : Action Machine α}
    (h : StoreAlone Q x) : Keeps source x := by
  obtain ⟨y, -, hy⟩ := h
  intro m
  rw [hy]
  exact keeps_source_onWorld (Intrinsic.keeps_source_onStore _) m

theorem secluded_source : Secluded source where
  execute i := (storeAlone_execute Store.inherited_true i).keeps_source
  fetch r := (storeAlone_fetch Store.inherited_true r).keeps_source
  active := (storeAlone_active Store.inherited_true).keeps_source
  enter argument returnAddress := by
    refine keeps_source_onWorld ((Intrinsic.keeps_source_onStore _).bind fun _ => ?_)
    exact Keeps.bind (fun _ => rfl) fun _ => keeps_pure _
  leave record := by
    refine Keeps.bind (keeps_source_onWorld fun w => ?_) fun _ => ?_
    · cases h : Frame.exit ⟨w.store, record⟩ with
      | ok address a => rw [World.leaveFrame_of_ok h]; rfl
      | error f a => rw [World.leaveFrame_of_error h]; rfl
    · exact Keeps.bind (fun _ => rfl) fun _ => keeps_pure _
  note _ := keeps_source_onWorld fun _ => rfl
  count m := by rw [state_count]; rfl
  halt _ := rfl
  hostCalls _ _ := rfl

end Machine

/-! ### The scratch cell -/

namespace Store

variable {α : Type}

theorem keeps_scratch_onRegisters (x : Action Registers α) : Keeps scratch (onRegisters x) := by
  intro s
  rw [onRegisters_apply, Outcome.state_within]

theorem keeps_scratch_onMemory (x : Action Memory α) : Keeps scratch (onMemory x) := by
  intro s
  rw [onMemory_apply, Outcome.state_within]

theorem keeps_scratch_onStack (x : Action Stack α) : Keeps scratch (onStack x) := by
  intro s
  rw [onStack_apply, Outcome.state_within]

theorem keeps_scratch_setFp (fp : Word) : Keeps scratch (setFp fp) := fun _ => rfl

/-- What programs do with the store leaves the scratch cell alone. -/
theorem inherited_keeps_scratch : Inherited fun _ x => Keeps scratch x where
  pure := keeps_pure
  bind := Keeps.bind
  apply _ _ _ := keeps_ofExcept _
  register _ := keeps_scratch_onRegisters _
  setRegister _ _ := keeps_scratch_onRegisters _
  load _ := keeps_scratch_onMemory _
  store _ _ := keeps_scratch_onMemory _
  frameAddress offset s := by
    rw [frameAddress]
    cases Word.addExact? s.fp offset <;> rfl
  reserve := keeps_scratch_onStack _
  release := keeps_scratch_onStack _

end Store

namespace Frame

open Store (keeps_scratch_onRegisters keeps_scratch_onMemory keeps_scratch_onStack
  keeps_scratch_setFp)

theorem keeps_scratch_enter (argument returnAddress : Word) :
    Keeps Store.scratch (enter argument returnAddress) := by
  rw [enter_eq]
  refine keeps_get.bind fun s => (keeps_scratch_onStack _).bind fun lowest => ?_
  refine (keeps_scratch_onMemory _).bind fun _ => (keeps_scratch_onMemory _).bind fun _ => ?_
  refine (keeps_scratch_onMemory _).bind fun _ => ?_
  exact (keeps_scratch_setFp _).bind fun _ => keeps_pure _

theorem keeps_scratch_exit : Keeps (fun a => a.store.scratch) exit := by
  have hrelease : ∀ count, Keeps Store.scratch (Store.release count) :=
    fun count => (keeps_scratch_onStack _).bind fun _ => keeps_pure _
  have hload := fun offset => keeps_onStore (Store.inherited_keeps_scratch.frameLoad offset)
  rw [exit_eq]
  refine keeps_ready.bind fun _ => ?_
  refine (hload _).bind fun address => (hload _).bind fun callerFp => ?_
  refine keeps_get.bind fun a => (keeps_onStore (keeps_scratch_onRegisters _)).bind fun _ => ?_
  refine (keeps_onRecord _).bind fun _ => (keeps_onStore (keeps_scratch_setFp _)).bind fun _ => ?_
  refine (keeps_onStore (hrelease 1)).bind fun _ => (keeps_onStore (hrelease 2)).bind fun _ => ?_
  refine (keeps_onRecord _).bind fun _ => (keeps_onRecord _).bind fun _ => keeps_pure _

end Frame

namespace Intrinsic

open World (keeps_onStore keeps_onConsole keeps_note)

theorem keeps_scratch_print (bytes : Bytes) : Keeps (fun w => w.store.scratch) (print bytes) :=
  (keeps_onConsole _).bind fun _ => keeps_pure _

theorem keeps_scratch_read (i : Intrinsic)
    {accept : Bytes → Action World (Except InputFailure Word)}
    (h : ∀ token, Keeps (fun w => w.store.scratch) (accept token)) :
    Keeps (fun w => w.store.scratch) (read i accept) := by
  have hcomplete : ∀ result, Keeps (fun w => w.store.scratch) (complete i result) := by
    intro result
    cases result with
    | ok value => exact keeps_pure _
    | error e => exact (keeps_note _).bind fun _ => keeps_pure _
  refine Keeps.bind (x := readToken) ?_ fun token => ?_
  · refine (keeps_onConsole _).bind fun _ => (keeps_onConsole _).bind fun token => ?_
    cases token <;> exact keeps_pure _
  · cases token with
    | ok token => exact (h token).bind fun result => hcomplete result
    | error e => exact hcomplete (.error e)

/-- An intrinsic that does not ask for numbers leaves the scratch cell alone. -/
theorem keeps_scratch_body {i : Intrinsic} (h : .floats ∉ i.needs) :
    Keeps (fun w => w.store.scratch) i.body := by
  refine (keeps_onStore (Store.inherited_keeps_scratch.frameLoad _)).bind fun argument => ?_
  cases i with
  | printInteger => exact keeps_scratch_print _
  | printBoolean => exact keeps_scratch_print _
  | printString =>
    exact (keeps_onStore (Store.keeps_scratch_onMemory _)).bind fun _ => keeps_scratch_print _
  | readInteger => exact keeps_scratch_read _ fun _ => keeps_pure _
  | readBoolean => exact keeps_scratch_read _ fun _ => keeps_pure _
  | readString =>
    refine keeps_scratch_read _ fun token => ?_
    rw [acceptString]
    cases Input.string token with
    | ok bytes =>
      exact (keeps_onStore (Store.keeps_scratch_onMemory _)).bind fun _ => keeps_pure _
    | error e => exact keeps_pure _
  | printFloat => exact absurd List.mem_cons_self h
  | readFloat => exact absurd (List.mem_cons_of_mem _ List.mem_cons_self) h

end Intrinsic

namespace Machine

variable {α : Type}

/-- The scratch cell of a machine's store. -/
def scratch (m : Machine) : Single := m.store.scratch

theorem keeps_scratch_onWorld {x : Action World α} (h : Keeps (fun w => w.store.scratch) x) :
    Keeps scratch (onWorld x) := by
  intro m
  rw [onWorld_apply, Outcome.state_within]
  exact h m.toWorld

theorem StoreAlone.keeps_scratch {x : Action Machine α}
    (h : StoreAlone (fun _ y => Keeps Store.scratch y) x) : Keeps scratch x := by
  obtain ⟨y, hy, hx⟩ := h
  intro m
  rw [hx]
  exact keeps_scratch_onWorld (World.keeps_onStore (hy m.statusCode)) m

theorem secluded_scratch : Secluded scratch where
  execute i := (storeAlone_execute Store.inherited_keeps_scratch i).keeps_scratch
  fetch r := (storeAlone_fetch Store.inherited_keeps_scratch r).keeps_scratch
  active := (storeAlone_active Store.inherited_keeps_scratch).keeps_scratch
  enter argument returnAddress := by
    refine keeps_scratch_onWorld ?_
    refine (World.keeps_onStore (Frame.keeps_scratch_enter _ _)).bind fun _ => ?_
    exact (World.keeps_note _).bind fun _ => keeps_pure _
  leave record := by
    refine Keeps.bind (keeps_scratch_onWorld fun w => ?_) fun _ => ?_
    · have hexit := Frame.keeps_scratch_exit ⟨w.store, record⟩
      cases h : Frame.exit ⟨w.store, record⟩ with
      | ok address a =>
        rw [World.leaveFrame_of_ok h]
        rwa [h] at hexit
      | error f a =>
        rw [World.leaveFrame_of_error h]
        rwa [h] at hexit
    · exact Keeps.bind (fun _ => rfl) fun _ => keeps_pure _
  note _ := keeps_scratch_onWorld fun _ => rfl
  count m := by rw [state_count]; rfl
  halt _ := rfl
  hostCalls _ _ := rfl

end Machine

/-! ### Two sources -/

def Machine.withSource (source : Source) (m : Machine) : Machine :=
  { m with console := { m.console with source } }

def Session.withSource (source : Source) (s : Session) : Session :=
  { s with machine := s.machine.withSource source }

/-- Loading a machine looks at no source. -/
theorem Machine.load_withSource {config : Config} {program : Program} {a : Source} {sink : Sink}
    {m : Machine} (h : load config program ⟨a, sink⟩ = .ok m) (b : Source) :
    load config program ⟨b, sink⟩ = .ok (m.withSource b) := by
  rw [load] at h ⊢
  cases hstore : Store.ofConfig config with
  | error f =>
    rw [hstore] at h
    cases h
  | ok store =>
    rw [hstore] at h
    dsimp only at h ⊢
    cases hseed : seed program.data store with
    | error f t =>
      rw [hseed] at h
      cases h
    | ok _ t =>
      rw [hseed] at h
      cases h
      rfl

/-- The change of the source. -/
def Variation.ofSource (source : Source) : Variation where
  config c := c
  console c := { c with source }
  sink_eq _ := rfl
  journal_push := Variation.same.journal_push

namespace Variation

variable {source : Source}

theorem commutesAt_print (bytes : Bytes) (w : World) :
    CommutesAt (ofSource source).world (Intrinsic.print bytes) w := by
  refine Action.CommutesAt.bind ?_ fun _ w' _ => commutesAt_pure _ w'
  rw [CommutesAt, World.onConsole_apply, World.onConsole_apply, Console.write,
    Console.onSink_apply, Console.onSink_apply]
  show Outcome.within _ (Outcome.within _ (Sink.write bytes w.console.sink)) = _
  cases Sink.write bytes w.console.sink <;> rfl

/-- The source makes no difference to an intrinsic that does not ask for input. -/
theorem spares_ofSource {config : Config} (h : config.capabilities.contains .input = false)
    (i : Intrinsic) : (ofSource source).Spares config i where
  allows := rfl
  body hallowed w := by
    have hneeds := CapabilitySet.not_mem_needs h hallowed
    refine (World.commutesAt_onStore _ w).bind fun argument w' _ => ?_
    cases i with
    | printInteger => exact commutesAt_print _ w'
    | printBoolean => exact commutesAt_print _ w'
    | printString =>
      exact (World.commutesAt_onStore _ w').bind fun _ w'' _ => commutesAt_print _ w''
    | printFloat =>
      exact (World.commutesAt_onStore _ w').bind fun _ w'' _ => commutesAt_print _ w''
    | readInteger | readFloat | readString | readBoolean => exact absurd List.mem_cons_self hneeds

end Variation

namespace Session

/-- Without the right to read input one source is as good as another. -/
theorem serveAll_withSource {s : Session}
    (h : s.machine.config.capabilities.contains .input = false) (source : Source) (fuel : Nat)
    (requests : List HostRequest) :
    (s.withSource source).serveAll fuel requests =
      (s.serveAll fuel requests).map fun r => (r.1, r.2.withSource source) := by
  have hcount : ∀ m : Machine, m.config = s.machine.config →
      CommutesAt (Variation.ofSource source).machine Machine.count m :=
    fun m _ => Machine.commutesAt_count_of_limit rfl
  exact serveAll_vary hcount (Variation.spares_ofSource h) fuel requests rfl

/-- A source that cannot be read is left as it is. -/
theorem source_of_serveAll {s t : Session}
    (h : s.machine.config.capabilities.contains .input = false) {fuel : Nat}
    {requests : List HostRequest} {answers : List (Except Fault Answer)}
    (ht : s.serveAll fuel requests = some (answers, t)) :
    t.machine.console.source = s.machine.console.source := by
  have hsame := serveAll_withSource h s.machine.console.source fuel requests
  -- The session is its own form with the source that it has.
  replace hsame : s.serveAll fuel requests = _ := hsame
  rw [ht] at hsame
  exact congrArg (fun r => r.2.machine.console.source) (Option.some.inj hsame)

/-! ### Refused calls -/

variable {s : Session} {i : Intrinsic}

theorem serve_denied (hdenied : s.machine.config.capabilities.allows i = false)
    (hflush : s.machine.console.sink.flushFailure = none) (fuel : Nat) (argument : Word) :
    s.serve fuel (.call (.intrinsic i) argument) = some (.error (.capabilityDenied i) s) :=
  serve_refused hflush (Machine.advance_of_failure (.intrinsic hdenied)) fuel

/-- A call that a block makes is refused with nothing done to the machine. -/
theorem serve_denied_inside (hdenied : s.machine.config.capabilities.allows i = false)
    (hflush : s.machine.console.sink.flushFailure = none) {request : HostRequest}
    {start a : Moment} (hstart : request.start? s.machine = some start)
    (ha : Moment.Reaches start a) {r : Register} {resume : Label}
    (hc : a.control = .inside [] (.call (.intrinsic i) r resume)) {w : Word}
    (hw : a.machine.store.registers.cells[r.index.toNat]? = some w) :
    ∃ fuel, s.serve fuel request =
      some (.error (.capabilityDenied i) ⟨request.close a.machine, s.records⟩) := by
  obtain ⟨n, hn⟩ := HostRequest.exists_of_start? hstart
  have hmove : Machine.advance a.control a.machine =
      .ok (.entering (.intrinsic i) w (.block resume)) a.machine := by
    rw [hc]
    exact Machine.advance_of_move (.call hw)
  have hdenied' : a.machine.config.capabilities.allows i = false := by
    rw [ha.later.config, hn]
    exact hdenied
  exact serve_of_failure hflush hstart (ha.tail (Moment.next_of_advance hmove))
    (Machine.advance_of_failure (.intrinsic hdenied'))

end Session

/-- **Capabilities fail closed.**  Without the right to read input, two machines that differ in
their sources answer every request alike and stay the same but for the sources, of which nothing is
read.  Without the right to use numbers, no run and no call changes the scratch cell.  And an
intrinsic that is not allowed is refused with the store as it was when the call was to be made. -/
theorem capabilities_confine :
    (∀ (config : Config) (program : Program), config.capabilities.contains .input = false →
      ∀ a b sink m, Machine.load config program ⟨a, sink⟩ = .ok m →
        Machine.load config program ⟨b, sink⟩ = .ok (m.withSource b) ∧
        ∀ fuel requests,
          Session.serveAll fuel requests ⟨m.withSource b, #[]⟩ =
            (Session.serveAll fuel requests ⟨m, #[]⟩).map
              (fun r => (r.1, r.2.withSource b)) ∧
          ∀ answers s, Session.serveAll fuel requests ⟨m, #[]⟩ = some (answers, s) →
            s.machine.console.source = a ∧
            ∀ (request : HostRequest) start x, request.start? s.machine = some start →
              Moment.Reaches start x → x.machine.console.source = a) ∧
    (∀ s : Session, s.machine.config.capabilities.contains .floats = false →
      ∀ request : HostRequest,
      (∀ start x, request.start? s.machine = some start → Moment.Reaches start x →
        x.machine.store.scratch = s.machine.store.scratch) ∧
      (request = .run ∨ request.isCall = true → ∀ fuel o, s.serve fuel request = some o →
        (Outcome.state o).machine.store.scratch = s.machine.store.scratch)) ∧
    ∀ (s : Session) i, s.machine.config.capabilities.allows i = false →
      s.machine.console.sink.flushFailure = none →
      (∀ fuel argument,
        s.serve fuel (.call (.intrinsic i) argument) = some (.error (.capabilityDenied i) s)) ∧
      ∀ (request : HostRequest) start a r resume w, request.start? s.machine = some start →
        Moment.Reaches start a → a.control = .inside [] (.call (.intrinsic i) r resume) →
        a.machine.store.registers.cells[r.index.toNat]? = some w →
        ∃ fuel t, s.serve fuel request = some (.error (.capabilityDenied i) t) ∧
          t.machine.store = a.machine.store := by
  refine ⟨?_, ?_, ?_⟩
  · intro config program hinput a b sink m hload
    refine ⟨Machine.load_withSource hload b, fun fuel requests => ?_⟩
    obtain ⟨store, rfl⟩ := Machine.exists_of_load hload
    let opened : Session := ⟨{ store, console := ⟨a, sink⟩, config, program }, #[]⟩
    have hopened : opened.machine.config.capabilities.contains .input = false := hinput
    refine ⟨Session.serveAll_withSource hopened b fuel requests, fun answers s hs => ?_⟩
    · have hsource := Session.source_of_serveAll hopened hs
      refine ⟨hsource, fun request start x hstart hx => ?_⟩
      have hconfig := (Session.Arises.settled ⟨_, _, _, _, hload, hs⟩).choose_spec.since.config
      refine (Session.secluded_of_reaches Machine.secluded_source ?_ hstart hx).trans hsource
      intro i hi
      rw [hconfig] at hi
      exact Machine.keeps_source_onWorld
        (Intrinsic.keeps_source_body (CapabilitySet.not_mem_needs hinput hi))
  · intro s hfloats request
    have hbody : ∀ i, s.machine.config.capabilities.allows i = true →
        Keeps Machine.scratch (Machine.onWorld i.body) := fun i hi =>
      Machine.keeps_scratch_onWorld
        (Intrinsic.keeps_scratch_body (CapabilitySet.not_mem_needs hfloats hi))
    exact ⟨fun start x hstart hx =>
        Session.secluded_of_reaches Machine.secluded_scratch hbody hstart hx,
      fun hrequest fuel o ho =>
        Session.secluded_of_serve Machine.secluded_scratch hbody hrequest ho⟩
  · intro s i hdenied hflush
    refine ⟨fun fuel argument => Session.serve_denied hdenied hflush fuel argument, ?_⟩
    intro request start a r resume w hstart ha hc hw
    obtain ⟨fuel, hfuel⟩ := Session.serve_denied_inside hdenied hflush hstart ha hc hw
    refine ⟨fuel, _, hfuel, ?_⟩
    cases request <;> rfl

/-- A program that wants to read a number. -/
def readingProgram : Program :=
  ⟨⟨0⟩, #[⟨[.constant ⟨1⟩ 9], .call (.intrinsic .readInteger) ⟨1⟩ ⟨1⟩⟩, ⟨[], .halt⟩], []⟩

/-- The program on a machine that may only print. -/
def readingSession (source : Source) : Session where
  machine := {
    store := ⟨.ofSize 2, .ofSize 8, .ofCapacity .upward 8, 0, .zero⟩
    console := ⟨source, {}⟩
    config := { registers := 2, memory := 8, capabilities := .outputOnly }
    program := readingProgram }

/-- A source that holds a seven. -/
def seven : Source := ⟨[55], []⟩

/-- A source that fails. -/
def brokenSource : Source := .ofSegments [.failure "no input"]

theorem readingProgram_is_confined :
    (∃ answers s, (readingSession seven).serveAll 1 [.run, .call (.intrinsic .printInteger) 5] =
        some (answers, s) ∧ s.machine.console.source = seven ∧
      (readingSession brokenSource).serveAll 1 [.run, .call (.intrinsic .printInteger) 5] =
        some (answers, s.withSource brokenSource)) ∧
    (∃ o, (readingSession seven).serve 1 .run = some o ∧
      (Outcome.state o).machine.store.scratch = .zero) ∧
    (∃ fuel t,
      (readingSession seven).serve fuel .run = some (.error (.capabilityDenied .readInteger) t) ∧
      t.machine.store.registers.cells = #[0, 9]) ∧
    (readingSession seven).serve 0 (.call (.intrinsic .readInteger) 5) =
      some (.error (.capabilityDenied .readInteger) (readingSession seven)) := by
  obtain ⟨hinput, hfloats, hdenied⟩ := capabilities_confine
  refine ⟨?_, ?_, ?_⟩
  · have hsome : ((readingSession seven).serveAll 1
        [.run, .call (.intrinsic .printInteger) 5]).isSome := by decide +kernel
    obtain ⟨⟨answers, s⟩, hs⟩ := Option.isSome_iff_exists.mp hsome
    obtain ⟨-, halike⟩ :=
      hinput (readingSession seven).machine.config readingProgram rfl seven brokenSource {}
      (readingSession seven).machine rfl
    obtain ⟨hother, hsource⟩ := halike 1 [.run, .call (.intrinsic .printInteger) 5]
    refine ⟨answers, s, hs, (hsource answers s hs).1, hother.trans ?_⟩
    exact congrArg (Option.map _) hs
  · have hsome : ((readingSession seven).serve 1 .run).isSome := by decide +kernel
    obtain ⟨o, ho⟩ := Option.isSome_iff_exists.mp hsome
    exact ⟨o, ho, (hfloats (readingSession seven) rfl .run).2 (.inl rfl) 1 o ho⟩
  · obtain ⟨hcall, hinside⟩ := hdenied (readingSession seven) .readInteger (by decide +kernel) rfl
    refine ⟨?_, hcall 0 5⟩
    let start : Moment := .ofRun (readingSession seven).machine
    have hcontrol : (start.after 2).control =
        .inside [] (.call (.intrinsic .readInteger) ⟨1⟩ ⟨1⟩) := by decide +kernel
    have hregisters : (start.after 2).machine.store.registers.cells = #[0, 9] := by decide +kernel
    obtain ⟨fuel, t, ht, hstore⟩ := hinside .run start _ ⟨1⟩ ⟨1⟩ 9 rfl
      (Moment.reaches_after start 2) hcontrol (by rw [hregisters]; rfl)
    exact ⟨fuel, t, ht, by rw [hstore, hregisters]⟩

end WordMachine

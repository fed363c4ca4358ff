/-
Machines that differ in what a program does not see.

Two machines may have different configurations, consoles or journals and still do the same.  A
`Variation` changes these in a machine, and an action commutes with it (`Action.CommutesAt`) if it
ends in the same way on the machine that was changed as on the one that was not, and leaves the
changed form of what it leaves there.

Instructions work on the store, so they commute with every variation, and so does entering and
leaving frames.  There are three places where a variation can show: the limit where a step is
counted, the capabilities where an intrinsic is called, and the console in the body of an intrinsic.
`Variation.Spares` is about the last two.  What was noted before shows nowhere, since a journal is
only written.

* `Machine.commutesAt_step`: a block is run alike if its step is counted alike;
* `Machine.drive_vary` and `Session.serve_vary`: the same for executions and requests.
-/
import WordMachine.Proofs.History

namespace WordMachine

namespace Action

variable {σ α β : Type} {f : σ → σ}

/-- An action ends in the same way on a state and on its changed form, and what it leaves there is
the changed form of what it leaves here. -/
def CommutesAt (f : σ → σ) (x : Action σ α) (s : σ) : Prop := x (f s) = Outcome.within f (x s)

theorem commutesAt_pure (a : α) (s : σ) : CommutesAt f (pure a) s := rfl

theorem commutesAt_fail (e : Fault) (s : σ) : CommutesAt f (fail e : Action σ α) s := rfl

theorem commutesAt_ofExcept (x : Except Fault α) (s : σ) :
    CommutesAt f (ofExcept x : Action σ α) s := by
  cases x <;> rfl

theorem CommutesAt.bind {x : Action σ α} {g : α → Action σ β} {s : σ} (hx : CommutesAt f x s)
    (hg : ∀ a t, x s = .ok a t → CommutesAt f (g a) t) : CommutesAt f (x >>= g) s := by
  unfold CommutesAt at hx ⊢
  cases h : x s with
  | ok a t =>
    rw [h] at hx
    rw [bind_of_ok hx, bind_of_ok h]
    exact hg a t h
  | error e t =>
    rw [h] at hx
    rw [bind_of_error hx, bind_of_error h]
    rfl

end Action

open WordMachine.Action (Leads CommutesAt commutesAt_pure commutesAt_fail commutesAt_ofExcept)

/-- A change of the configuration, of the console but for its sink, and of what was noted so far. -/
structure Variation where
  config : Config → Config
  console : Console → Console
  sink_eq : ∀ c, (console c).sink = c.sink
  journal : Array Event → Array Event := id
  journal_push : ∀ j e, journal (j.push e) = (journal j).push e

namespace Variation

/-- No change at all. -/
def same : Variation where
  config c := c
  console c := c
  sink_eq _ := rfl
  journal_push _ _ := rfl

variable (v : Variation)

def world (w : World) : World :=
  { w with console := v.console w.console, journal := v.journal w.journal }

def machine (m : Machine) : Machine :=
  { m with toWorld := v.world m.toWorld, config := v.config m.config }

def session (s : Session) : Session := { s with machine := v.machine s.machine }

/-- The variation makes no difference to a call of an intrinsic. -/
structure Spares (config : Config) (i : Intrinsic) : Prop where
  allows : (v.config config).capabilities.allows i = config.capabilities.allows i
  body : config.capabilities.allows i = true → ∀ w, CommutesAt v.world i.body w

end Variation

variable {v : Variation}

/-! ### Worlds -/

namespace World

variable {α : Type}

theorem commutesAt_onStore (x : Action Store α) (w : World) :
    CommutesAt v.world (onStore x) w := by
  rw [CommutesAt, onStore_apply, onStore_apply]
  show Outcome.within _ (x w.store) = _
  cases x w.store <;> rfl

/-- What is noted comes after what was noted before, whatever that was. -/
theorem push_vary (w : World) (e : Event) :
    { v.world w with journal := (v.world w).journal.push e } =
      v.world { w with journal := w.journal.push e } := by
  simp only [Variation.world, v.journal_push]

theorem commutesAt_note (event : Store → Event) (w : World) :
    CommutesAt v.world (note event) w :=
  congrArg (EStateM.Result.ok ()) (push_vary w (event w.store))

theorem commutesAt_onConsole (h : ∀ c, v.console c = c) (x : Action Console α) (w : World) :
    CommutesAt v.world (onConsole x) w := by
  rw [CommutesAt, onConsole_apply, onConsole_apply]
  have hconsole : (v.world w).console = w.console := h w.console
  rw [hconsole]
  cases x w.console with
  | ok a c => simp only [Outcome.within_ok, Variation.world, h]
  | error f c => simp only [Outcome.within_error, Variation.world, h]

theorem commutesAt_enterFrame (argument returnAddress : Word) (w : World) :
    CommutesAt v.world (enterFrame argument returnAddress) w :=
  (commutesAt_onStore _ w).bind fun _ w' _ =>
    (commutesAt_note _ w').bind fun _ w' _ => commutesAt_pure _ w'

theorem commutesAt_leaveFrame (record : CallRecord) (w : World) :
    CommutesAt v.world (leaveFrame record) w := by
  rw [CommutesAt]
  cases h : Frame.exit ⟨w.store, record⟩ with
  | ok address a =>
    rw [leaveFrame_of_ok h, leaveFrame_of_ok (w := v.world w) h]
    exact congrArg (EStateM.Result.ok (address, a.record)) (push_vary { w with store := a.store } _)
  | error f a =>
    rw [leaveFrame_of_error h]
    exact leaveFrame_of_error (w := v.world w) h

end World

/-! ### Bodies of intrinsics -/

namespace Intrinsic

open World (commutesAt_onStore commutesAt_onConsole commutesAt_note)

variable (h : ∀ c, v.console c = c)

include h

theorem commutesAt_print (bytes : Bytes) (w : World) : CommutesAt v.world (print bytes) w :=
  (commutesAt_onConsole h _ w).bind fun _ w' _ => commutesAt_pure _ w'

theorem commutesAt_read (i : Intrinsic) {accept : Bytes → Action World (Except InputFailure Word)}
    (haccept : ∀ token w, CommutesAt v.world (accept token) w) (w : World) :
    CommutesAt v.world (read i accept) w := by
  have hcomplete : ∀ result w, CommutesAt v.world (complete i result) w := by
    intro result w
    cases result with
    | ok value => exact commutesAt_pure _ w
    | error e => exact (commutesAt_note _ w).bind fun _ w' _ => commutesAt_pure _ w'
  refine Action.CommutesAt.bind (x := readToken) ?_ fun token w' _ => ?_
  · refine (commutesAt_onConsole h _ w).bind fun _ w₁ _ => ?_
    refine (commutesAt_onConsole h _ w₁).bind fun token w₂ _ => ?_
    cases token <;> exact commutesAt_pure _ w₂
  · cases token with
    | ok token => exact (haccept token w').bind fun result w'' _ => hcomplete result w''
    | error e => exact hcomplete (.error e) w'

/-- The body of an intrinsic looks at the store and at the console only. -/
theorem commutesAt_body (i : Intrinsic) (w : World) : CommutesAt v.world i.body w := by
  refine (commutesAt_onStore _ w).bind fun argument w' _ => ?_
  cases i with
  | printInteger => exact commutesAt_print h _ w'
  | printBoolean => exact commutesAt_print h _ w'
  | printString => exact (commutesAt_onStore _ w').bind fun _ w'' _ => commutesAt_print h _ w''
  | printFloat => exact (commutesAt_onStore _ w').bind fun _ w'' _ => commutesAt_print h _ w''
  | readInteger => exact commutesAt_read h _ (fun _ w => commutesAt_pure _ w) w'
  | readBoolean => exact commutesAt_read h _ (fun _ w => commutesAt_pure _ w) w'
  | readFloat =>
    refine commutesAt_read h _ (fun token w => ?_) w'
    rw [acceptFloat]
    cases Input.float token with
    | ok x => exact (commutesAt_onStore _ w).bind fun _ w'' _ => commutesAt_pure _ w''
    | error e => exact commutesAt_pure _ w
  | readString =>
    refine commutesAt_read h _ (fun token w => ?_) w'
    rw [acceptString]
    cases Input.string token with
    | ok bytes => exact (commutesAt_onStore _ w).bind fun _ w'' _ => commutesAt_pure _ w''
    | error e => exact commutesAt_pure _ w

end Intrinsic

/-- With the console as it is, only the capabilities can make a difference to a call. -/
theorem Variation.spares_of_console (h : ∀ c, v.console c = c) {config : Config} {i : Intrinsic}
    (hallows : (v.config config).capabilities.allows i = config.capabilities.allows i) :
    v.Spares config i :=
  ⟨hallows, fun _ w => Intrinsic.commutesAt_body h i w⟩

/-! ### Blocks -/

namespace Machine

variable {α : Type}

theorem commutesAt_onWorld {x : Action World α} {m : Machine}
    (h : CommutesAt v.world x m.toWorld) : CommutesAt v.machine (onWorld x) m := by
  have hx : x (v.machine m).toWorld = Outcome.within v.world (x m.toWorld) := h
  rw [CommutesAt, onWorld_apply, onWorld_apply, hx]
  cases x m.toWorld <;> rfl

theorem StoreAlone.commutesAt {Q : Store.Property} {x : Action Machine α} (h : StoreAlone Q x)
    (m : Machine) : CommutesAt v.machine x m := by
  obtain ⟨y, -, hy⟩ := h
  rw [CommutesAt, hy, hy]
  exact commutesAt_onWorld (World.commutesAt_onStore (y m.statusCode) m.toWorld)

theorem commutesAt_goTo (target : Word) (m : Machine) : CommutesAt v.machine (goTo target) m := by
  have hprogram : (v.machine m).program = m.program := rfl
  rw [CommutesAt, goTo, goTo, hprogram]
  cases m.program.resolve target <;> rfl

theorem commutesAt_leave (record : CallRecord) (m : Machine) :
    CommutesAt v.machine (leave record) m := by
  refine (commutesAt_onWorld (World.commutesAt_leaveFrame record m.toWorld)).bind fun _ m' _ => ?_
  exact Action.CommutesAt.bind rfl fun _ m'' _ => commutesAt_pure _ m''

theorem commutesAt_finish (record : CallRecord) (m : Machine) :
    CommutesAt v.machine (finish record) m := by
  refine (commutesAt_leave record m).bind fun address m' _ => ?_
  show (if address = hostReturn ∧ 0 < m'.hostCalls then pure Flow.returnToHost
    else goTo address : Action Machine Flow) (v.machine m') = Outcome.within v.machine
      ((if address = hostReturn ∧ 0 < m'.hostCalls then pure Flow.returnToHost
        else goTo address : Action Machine Flow) m')
  split
  · rfl
  · exact commutesAt_goTo address m'

theorem commutesAt_completeCall (record : CallRecord) (completion : Completion) (m : Machine) :
    CommutesAt v.machine (completeCall record completion) m := by
  rw [completeCall]
  cases CallRecord.stage completion record with
  | ok _ r => exact commutesAt_finish r m
  | error f _ => exact commutesAt_fail f m

theorem commutesAt_permit {callee : Callee} {m : Machine}
    (h : ∀ i, callee = .intrinsic i → v.Spares m.config i) :
    CommutesAt v.machine (permit callee) m := by
  cases callee with
  | routine l => exact commutesAt_ofExcept _ m
  | intrinsic i =>
    have hcheck : (v.config m.config).capabilities.check i = m.config.capabilities.check i := by
      rw [CapabilitySet.check, CapabilitySet.check, (h i rfl).allows]
    show Action.ofExcept ((v.config m.config).capabilities.check i) (v.machine m) =
      Outcome.within v.machine (Action.ofExcept (m.config.capabilities.check i) m)
    rw [hcheck]
    exact commutesAt_ofExcept _ m

theorem commutesAt_invoke {callee : Callee} {m : Machine}
    (h : ∀ i, callee = .intrinsic i → v.Spares m.config i) (argument returnAddress : Word) :
    CommutesAt v.machine (invoke callee argument returnAddress) m := by
  refine (commutesAt_permit h).bind fun _ m₁ hpermit => ?_
  refine (commutesAt_onWorld (World.commutesAt_enterFrame _ _ _)).bind fun record m₂ _ => ?_
  cases callee with
  | routine l => exact commutesAt_pure _ m₂
  | intrinsic i =>
    obtain ⟨hallowed, -⟩ := permit_intrinsic_eq_ok.mp hpermit
    refine (commutesAt_onWorld (World.commutesAt_note _ _)).bind fun _ m₃ _ => ?_
    refine (commutesAt_onWorld ((h i rfl).body hallowed _)).bind fun completion m₄ _ => ?_
    exact commutesAt_completeCall record completion m₄

theorem commutesAt_follow {t : Transfer} {m : Machine}
    (h : ∀ i, t.intrinsic? = some i → v.Spares m.config i) :
    CommutesAt v.machine (follow t) m := by
  have hfetch := fun r => (storeAlone_fetch Store.inherited_true r).commutesAt (v := v) m
  cases t with
  | jump target => exact commutesAt_pure _ m
  | branch r ifZero otherwise => exact (hfetch r).bind fun _ m' _ => commutesAt_pure _ m'
  | jumpRegister r => exact (hfetch r).bind fun w m' _ => commutesAt_goTo w m'
  | call callee r resume =>
    refine (hfetch r).bind fun w m' hw => ?_
    obtain ⟨-, rfl⟩ := fetch_eq_ok.mp hw
    refine commutesAt_invoke ?_ w resume.toWord
    rintro i rfl
    exact h i rfl
  | ret value =>
    refine ((storeAlone_active Store.inherited_true).commutesAt m).bind fun record m₁ _ => ?_
    have hvalue := storeAlone_returned Store.inherited_true value
    exact (hvalue.commutesAt m₁).bind fun completion m₂ _ => commutesAt_completeCall record _ m₂
  | halt => rfl

/-- **A block is run alike**, if its step is counted alike and the variation spares the intrinsics
that the program calls. -/
theorem commutesAt_step {m : Machine} (hcount : CommutesAt v.machine count m)
    (h : ∀ i ∈ m.program.intrinsics, v.Spares m.config i) (l : Label) :
    CommutesAt v.machine (step l) m := by
  refine hcount.bind fun _ m₁ hm₁ => ?_
  obtain ⟨-, rfl⟩ := count_eq_ok.mp hm₁
  refine (commutesAt_onWorld (World.commutesAt_note _ _)).bind fun _ m₂ hm₂ => ?_
  cases hm₂
  -- What comes next looks at the machine only for its program, which is not varied.
  refine Action.CommutesAt.bind (x := Action.ofExcept (m.program.block l))
    (commutesAt_ofExcept _ _) fun b m₃ hm₃ => ?_
  obtain ⟨hblock, rfl⟩ := Action.ofExcept_eq_ok.mp hm₃
  have hinstructions := storeAlone_executeAll Store.inherited_true b.instructions
  refine (hinstructions.commutesAt _).bind fun _ m₄ hm₄ => ?_
  refine commutesAt_follow fun i hi => ?_
  have hmem : i ∈ m.program.intrinsics := by
    have hb := Array.mem_toList_iff.mpr (Array.mem_of_getElem? (Program.block_eq_ok.mp hblock))
    exact List.mem_filterMap.mpr ⟨b, hb, hi⟩
  have hconfig : m₄.config = m.config := (hinstructions.leads.of_ok hm₄).config
  exact hconfig ▸ h i hmem

/-- A step is counted alike under the same limit. -/
theorem commutesAt_count_of_limit {m : Machine}
    (h : (v.config m.config).stepLimit = m.config.stepLimit) :
    CommutesAt v.machine count m := by
  have hconfig : (v.machine m).config = v.config m.config := rfl
  rw [CommutesAt, count, count, hconfig, h]
  cases m.config.stepLimit with
  | none => rfl
  | some limit =>
    show (if limit < m.steps + 1 then _ else _) =
      Outcome.within v.machine (if limit < m.steps + 1 then _ else _)
    by_cases hlimit : limit < m.steps + 1
    · rw [if_pos hlimit, if_pos hlimit]
      rfl
    · rw [if_neg hlimit, if_neg hlimit]
      rfl

/-! ### Executions -/

/-- What is left of an execution after a block has the program and the configuration it had. -/
theorem later_of_step (l : Label) (m : Machine) : m.Later (Outcome.state (step l m)) :=
  leads_step leads_later_advance l m

/-- **A variation that makes no difference to any block makes none to an execution.** -/
theorem drive_vary {p : Program} {config : Config}
    (hcount : ∀ m : Machine, m.config = config → CommutesAt v.machine count m)
    (h : ∀ i ∈ p.intrinsics, v.Spares config i) (fuel : Nat) {o : Outcome Machine Flow}
    (hprogram : (Outcome.state o).program = p) (hconfig : (Outcome.state o).config = config) :
    drive fuel (Outcome.within v.machine o) = (drive fuel o).map (Outcome.within v.machine) := by
  induction fuel generalizing o with
  | zero => rcases o with ⟨l | _ | _, m⟩ | ⟨f, m⟩ <;> rfl
  | succ fuel ih =>
    rcases o with ⟨l | _ | _, m⟩ | ⟨f, m⟩
    · have hstep : CommutesAt v.machine (step l) m := by
        refine commutesAt_step (hcount m hconfig) ?_ l
        subst hprogram hconfig
        exact h
      show drive fuel (step l (v.machine m)) =
        (drive fuel (step l m)).map (Outcome.within v.machine)
      rw [hstep]
      have hlater := later_of_step l m
      exact ih (hlater.program.trans hprogram) (hlater.config.trans hconfig)
    all_goals rfl

theorem flushed_vary {α : Type} (o : Outcome Machine α) :
    flushed (Outcome.within v.machine o) = Outcome.within v.machine (flushed o) := by
  have hsink : (v.machine (Outcome.state o)).console.sink = (Outcome.state o).console.sink :=
    v.sink_eq _
  rw [flushed_eq, flushed_eq, Outcome.state_within, hsink]
  cases (Outcome.state o).console.sink.flushFailure <;> rfl

theorem commutesAt_reset (m : Machine) : CommutesAt v.machine reset m :=
  commutesAt_onWorld (m := m.cleared) (World.commutesAt_onStore (seed m.program.data) _)

end Machine

/-! ### Requests -/

theorem HostRequest.conclude_vary (request : HostRequest) (records : Array CallRecord)
    (r : Outcome Machine Departure) :
    request.conclude records (Outcome.within v.machine r) =
      Outcome.within v.session (request.conclude records r) := by
  cases request with
  | call callee argument =>
    have hend : Outcome.within Machine.endCall (Outcome.within v.machine r) =
        Outcome.within v.machine (Outcome.within Machine.endCall r) := by cases r <;> rfl
    rw [conclude, conclude, hend, Machine.flushed_vary]
    rcases Machine.flushed (Outcome.within Machine.endCall r) with ⟨_ | _, m⟩ | ⟨f, m⟩
    · have hlast : (v.machine m).lastCall = m.lastCall := rfl
      rw [Outcome.within_ok, Machine.callOutcome, Machine.callOutcome, hlast]
      cases m.lastCall <;> rfl
    · rfl
    · rfl
  | run | reset | direct _ =>
    rw [conclude, conclude, Machine.flushed_vary]
    rcases Machine.flushed r with ⟨_ | _, m⟩ | ⟨f, m⟩ <;> rfl

/-- A call with its world varied. -/
def World.Call.vary (v : Variation) (c : World.Call) : World.Call :=
  { c with world := v.world c.world }

theorem World.commutesAt_exitFrame (c : World.Call) :
    CommutesAt (World.Call.vary v) exitFrame c := by
  refine Action.CommutesAt.bind ?_ fun address c' _ => ?_
  · rw [CommutesAt, Call.onActivation_apply, Call.onActivation_apply]
    show Outcome.within _ (Frame.exit ⟨c.world.store, c.record⟩) = _
    cases Frame.exit ⟨c.world.store, c.record⟩ <;> rfl
  · exact congrArg (fun w => EStateM.Result.ok address { c' with world := w })
      (push_vary c'.world (.frameExited c'.world.store.fp c'.world.store.sp c'.record.value))

namespace Bench

/-- A bench with its world varied. -/
def vary (v : Variation) (b : Bench) : Bench := { b with world := v.world b.world }

theorem commutesAt_onWorld {α : Type} {x : Action World α} {b : Bench}
    (h : CommutesAt v.world x b.world) : CommutesAt (vary v) (onWorld x) b := by
  have hx : x (vary v b).world = Outcome.within v.world (x b.world) := h
  rw [CommutesAt, onWorld_apply, onWorld_apply, hx]
  cases x b.world <;> rfl

theorem commutesAt_onCall (index : Nat) {x : Action World.Call Answer}
    (h : ∀ c, CommutesAt (World.Call.vary v) x c) (b : Bench) :
    CommutesAt (vary v) (onCall index x) b := by
  have hrecords : (vary v b).records = b.records := rfl
  rw [CommutesAt, onCall, onCall, hrecords]
  cases b.records[index]? with
  | none => rfl
  | some record =>
    have hx : x ⟨(vary v b).world, record⟩ =
        Outcome.within (World.Call.vary v) (x ⟨b.world, record⟩) := h ⟨b.world, record⟩
    dsimp only
    rw [hx]
    cases x ⟨b.world, record⟩ <;> rfl

theorem commutesAt_serve (request : Request) (b : Bench) :
    CommutesAt (vary v) (serve request) b := by
  have happend : ∀ record b, CommutesAt (vary v) (append record) b := fun _ _ => rfl
  cases request with
  | store request => exact commutesAt_onWorld (World.commutesAt_onStore _ _)
  | frame request =>
    cases request with
    | enter argument returnAddress =>
      refine (commutesAt_onWorld (World.commutesAt_enterFrame _ _ _)).bind fun record b' _ => ?_
      exact happend record b'
    | active =>
      refine (commutesAt_onWorld (World.commutesAt_onStore _ _)).bind fun record b' _ => ?_
      exact happend record b'
    | stage index completion =>
      refine commutesAt_onCall index (fun c => ?_) b
      have hrecord : (World.Call.vary v c).record = c.record := rfl
      rw [CommutesAt, stage, stage, hrecord]
      cases CallRecord.stage completion c.record <;> rfl
    | exit index =>
      refine commutesAt_onCall index (fun c => ?_) b
      exact (World.commutesAt_exitFrame c).bind fun _ c' _ => commutesAt_pure _ c'
    | record index =>
      have hlook : ∀ c,
          CommutesAt (World.Call.vary v) (fun c => .ok (Answer.record c.record) c) c :=
        fun _ => rfl
      exact commutesAt_onCall index hlook b

end Bench

namespace Session

theorem serve_vary {s : Session}
    (hcount : ∀ m : Machine, m.config = s.machine.config → CommutesAt v.machine Machine.count m)
    (h : ∀ i, v.Spares s.machine.config i) (fuel : Nat) (request : HostRequest) :
    (v.session s).serve fuel request = (s.serve fuel request).map (Outcome.within v.session) := by
  have hdrive : ∀ {start start' : Moment}, request.start? s.machine = some start →
      request.start? (v.session s).machine = some start' →
      start'.control.flow start'.machine =
        Outcome.within v.machine (start.control.flow start.machine) →
      (v.session s).serve fuel request =
        (s.serve fuel request).map (Outcome.within v.session) := by
    intro start start' hstart hstart' hflow
    obtain ⟨n, hn⟩ := HostRequest.exists_of_start? hstart
    have hlater := Machine.leads_flow (fun c _ => Machine.leads_later_advance c) start.control
      start.machine
    have hprogram := hlater.program.trans (congrArg Machine.program hn)
    have hconfig := hlater.config.trans (congrArg Machine.config hn)
    rw [serve_eq_drive hstart, serve_eq_drive hstart', hflow,
      Machine.drive_vary hcount (fun i _ => h i) fuel hprogram hconfig, Option.map_map,
      Option.map_map]
    exact congrArg (Option.map · _) (funext fun r => request.conclude_vary s.records r)
  cases request with
  | run =>
    cases hm : s.machine.halted with
    | true =>
      have hm' : (v.session s).machine.halted = true := hm
      rw [serve_idle hm, serve_idle hm']
      rfl
    | false =>
      exact hdrive (HostRequest.start?_eq_some.mpr (.inl ⟨rfl, hm, rfl⟩))
        (HostRequest.start?_eq_some.mpr (.inl ⟨rfl, hm, rfl⟩)) rfl
  | call callee argument =>
    have hstart : ∀ m : Machine, (HostRequest.call callee argument).start? m =
        some (.ofCall callee argument m) := fun _ => rfl
    exact hdrive (hstart s.machine) (hstart (v.machine s.machine))
      (Machine.commutesAt_invoke (m := s.machine.beginCall) (fun i _ => h i) _ _)
  | reset =>
    have hreset : Machine.reset (v.machine s.machine) =
        Outcome.within v.machine (Machine.reset s.machine) := Machine.commutesAt_reset s.machine
    show some (ofMachine s.records _ (Machine.reset (v.machine s.machine))) = _
    rw [hreset, serve]
    cases Machine.reset s.machine <;> rfl
  | direct request =>
    have hserve : Bench.serve request ⟨v.world s.machine.toWorld, s.records⟩ = Outcome.within
        (Bench.vary v) (Bench.serve request ⟨s.machine.toWorld, s.records⟩) :=
      Bench.commutesAt_serve request ⟨s.machine.toWorld, s.records⟩
    rw [serve, serve, onBench_apply, onBench_apply]
    show some (Outcome.within _ (Bench.serve request ⟨v.world s.machine.toWorld, s.records⟩)) = _
    rw [hserve]
    cases Bench.serve request ⟨s.machine.toWorld, s.records⟩ <;> rfl

theorem serveAll_vary {config : Config}
    (hcount : ∀ m : Machine, m.config = config → CommutesAt v.machine Machine.count m)
    (h : ∀ i, v.Spares config i) (fuel : Nat) (requests : List HostRequest) {s : Session}
    (hconfig : s.machine.config = config) :
    (v.session s).serveAll fuel requests =
      (s.serveAll fuel requests).map fun r => (r.1, v.session r.2) := by
  induction requests generalizing s with
  | nil => rfl
  | cons request requests ih =>
    subst hconfig
    rw [serveAll, serveAll, serve_vary hcount h]
    cases hserve : s.serve fuel request with
    | none => rfl
    | some o =>
      have hrest := ih (since_of_serve hserve).config
      rw [Option.map_some, Option.bind_eq_bind, Option.bind_eq_bind, Option.bind_some,
        Option.bind_some, Outcome.state_within, hrest]
      cases serveAll fuel requests (Outcome.state o) with
      | none => rfl
      | some r => cases o <;> rfl

end Session

end WordMachine

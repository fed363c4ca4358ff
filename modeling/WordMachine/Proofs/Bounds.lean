/-
Bounds that no execution crosses.

A relation between stores that follows the stack pointer (`Store.Follows`) holds along all that a
session can do: along every move of the machine, along runs and calls from their start to any moment
in the midst of them, along resets and along direct work.  So the sizes of the spaces are those of
the configuration wherever a session gets to, and the stack pointer is between the two ends of the
stack unless the host reserves counts that are too large.

* `Machine.leads_follows_advance`, `Session.follows_of_serve`: what follows the stack pointer holds
  along moves and requests;
* `Session.Visits`: the machines that a session shows between two requests and in the midst of one;
* `Session.Arises.shape_of_visits` and `Session.exists_level_of_serveAll`: sizes and bounds.
-/
import WordMachine.Proofs.Confinement
import WordMachine.Proofs.Renewal
import WordMachine.Proofs.Script

namespace WordMachine

open WordMachine.Action (Leads Through leads_pure leads_get leads_fail leads_ofExcept)
open Store (Follows)

variable {α : Type} {R : Store → Store → Prop} {Admitted : UInt64 → Prop}

/-! ### Moves -/

namespace Machine

theorem leads_store_onWorld {x : Action World α} (h : Leads (Through World.store R) x) :
    Leads (Through (fun m : Machine => m.store) R) (onWorld x) := by
  intro m
  rw [onWorld_apply, Outcome.state_within]
  exact h m.toWorld

theorem StoreAlone.leads_store {x : Action Machine α} (h : StoreAlone (fun _ x => Leads R x) x) :
    Leads (Through (fun m : Machine => m.store) R) x := by
  obtain ⟨y, hR, hy⟩ := h
  intro m
  rw [hy]
  have hworld : Leads (Through World.store R) (World.onStore (y m.statusCode)) :=
    (hR m.statusCode).focus fun _ _ => rfl
  exact leads_store_onWorld hworld m

end Machine

variable [Std.Refl R] [IsTrans Store R]

/-- What follows the stack pointer holds along whatever is made of the operations that programs
use. -/
theorem Store.Follows.inherited (h : Follows R Admitted) (hone : Admitted 1) :
    Store.Inherited fun _ x => Leads R x where
  pure := leads_pure
  bind := Leads.bind
  apply _ _ _ := leads_ofExcept _
  register := h.register
  setRegister := h.setRegister
  load := h.load
  store := h.store
  frameAddress := h.frameAddress
  reserve := h.reserve 1 hone
  release := h.release 1

namespace Intrinsic

/-- A body works on the store with four operations. -/
theorem leads_store_body (hload : ∀ offset, Leads R (Store.frameLoad offset))
    (hread : ∀ address, Leads R (Store.readString address))
    (hwrite : ∀ address bytes, Leads R (Store.writeString address bytes))
    (hstage : ∀ x, Leads R (Store.stageFloat x)) (i : Intrinsic) :
    Leads (Through World.store R) i.body := by
  have hstore : ∀ {β : Type} {x : Action Store β}, Leads R x →
      Leads (Through World.store R) (World.onStore x) := fun hx => hx.focus fun _ _ => rfl
  have hconsole : ∀ {β : Type} (x : Action Console β),
      Leads (Through World.store R) (World.onConsole x) := by
    intro β x w
    rw [World.onConsole_apply, Outcome.state_within]
    exact Std.Refl.refl w.store
  have hprint : ∀ bytes, Leads (Through World.store R) (print bytes) :=
    fun bytes => (hconsole _).bind fun _ => leads_pure _
  have hcomplete : ∀ result, Leads (Through World.store R) (complete i result) := by
    intro result
    cases result with
    | ok value => exact leads_pure _
    | error e => exact Leads.bind (fun w => Std.Refl.refl w.store) fun _ => leads_pure _
  have hreads : ∀ accept : Bytes → Action World (Except InputFailure Word),
      (∀ token, Leads (Through World.store R) (accept token)) →
      Leads (Through World.store R) (read i accept) := by
    intro accept haccept
    refine Leads.bind (x := readToken) ?_ fun token => ?_
    · refine (hconsole _).bind fun _ => (hconsole _).bind fun token => ?_
      cases token <;> exact leads_pure _
    · cases token with
      | ok token => exact (haccept token).bind hcomplete
      | error e => exact hcomplete (.error e)
  refine (hstore (hload _)).bind fun argument => ?_
  cases i with
  | printInteger => exact hprint _
  | printBoolean => exact hprint _
  | printString => exact (hstore (hread _)).bind hprint
  | printFloat => exact (hstore (hstage _)).bind fun _ => hprint _
  | readInteger => exact hreads _ fun _ => leads_pure _
  | readBoolean => exact hreads _ fun _ => leads_pure _
  | readFloat =>
    refine hreads _ fun token => ?_
    rw [acceptFloat]
    cases Input.float token with
    | ok x => exact (hstore (hstage x)).bind fun _ => leads_pure _
    | error e => exact leads_pure _
  | readString =>
    refine hreads _ fun token => ?_
    rw [acceptString]
    cases Input.string token with
    | ok bytes => exact (hstore (hwrite _ bytes)).bind fun _ => leads_pure _
    | error e => exact leads_pure _

theorem leads_follows_body (h : Follows R Admitted) (i : Intrinsic) :
    Leads (Through World.store R) i.body := by
  refine leads_store_body h.frameLoad (fun address => ?_) (fun address bytes => ?_)
    (fun x s => ?_) i
  · exact h.of_keeps (Store.keeps_stack_onMemory _) (Store.keeps_readString address).shape
  · exact h.of_keeps (Store.keeps_stack_onMemory _) (Store.keeps_writeString address bytes).shape
  · exact h.aground s _ rfl rfl

end Intrinsic

namespace Machine

theorem leads_follows_leave (h : Follows R Admitted) (record : CallRecord) :
    Leads (Through (fun m : Machine => m.store) R) (leave record) := by
  have hleave : Leads (Through World.store R) (World.leaveFrame record) := by
    intro w
    have hexit := h.exitFrame ⟨w, record⟩
    rw [World.leaveFrame]
    cases hc : World.exitFrame ⟨w, record⟩ with
    | ok address c => rwa [hc] at hexit
    | error f c => rwa [hc] at hexit
  refine (leads_store_onWorld hleave).bind fun _ => ?_
  exact Leads.bind (fun m => Std.Refl.refl m.store) fun _ => leads_pure _

theorem sustained_follows (h : Follows R Admitted) (hone : Admitted 1) (hthree : Admitted 3) :
    Sustained (Through (fun m : Machine => m.store) R) where
  execute i := (storeAlone_execute (h.inherited hone) i).leads_store
  fetch r := (storeAlone_fetch (h.inherited hone) r).leads_store
  active := (storeAlone_active (h.inherited hone)).leads_store
  enter _ _ := leads_store_onWorld (h.enterFrame hthree _ _)
  leave := leads_follows_leave h

/-- **What follows the stack pointer holds along every move**, whether it succeeds or fails. -/
theorem leads_follows_advance (h : Follows R Admitted) (hone : Admitted 1) (hthree : Admitted 3)
    (c : Control) : Leads (Through (fun m : Machine => m.store) R) (advance c) := by
  have hnote : ∀ event,
      Leads (Through (fun m : Machine => m.store) R) (onWorld (World.note event)) :=
    fun _ m => Std.Refl.refl m.store
  refine (sustained_follows h hone hthree).advance (fun l _ => ⟨fun m => ?_, hnote _⟩)
    (fun i _ _ _ => ⟨hnote _, leads_store_onWorld (Intrinsic.leads_follows_body h i)⟩)
    fun _ m => Std.Refl.refl m.store
  rw [state_count]
  exact Std.Refl.refl m.store

theorem leads_follows_seed (h : Follows R Admitted) (cells : List DataCell) :
    Leads R (seed cells) := by
  induction cells with
  | nil => exact leads_pure _
  | cons cell cells ih => exact (h.store _ _).bind fun _ => ih

end Machine

/-! ### Sessions -/

namespace Session

variable {s : Session} {m : Machine}

/-- What follows the stack pointer holds along every request that reserves no counts but those
admitted. -/
theorem follows_of_serve (h : Follows R Admitted) (hone : Admitted 1) (hthree : Admitted 3)
    {fuel : Nat} {request : HostRequest}
    (hrequest : ∀ count, request = .direct (.store (.reserve count)) → Admitted count)
    {o : Outcome Session Answer} (ho : s.serve fuel request = some o) :
    R s.machine.store (Outcome.state o).machine.store := by
  refine leads_serve_of (R := Through (fun m : Machine => m.store) R)
    (Machine.leads_follows_advance h hone hthree) (fun m n => Std.Refl.refl m.store)
    (fun r m records hr => ?_) (fun _ m => ?_) ho
  · refine Bench.leads_follows h hone hthree (fun count hc => ?_) ⟨m.toWorld, records⟩
    exact hrequest count (by rw [hr, hc])
  · rw [Machine.reset_eq, Machine.onStore, Machine.onWorld_apply, Outcome.state_within,
      World.onStore_apply, Outcome.state_within]
    exact IsTrans.trans (r := R) _ _ _ (h.reset m.store)
      (Machine.leads_follows_seed h m.program.data m.store.reset)

/-- The machines that a session shows: the one that it holds between requests, and those in the
midst of a run or a call. -/
inductive Visits (s : Session) : Machine → Prop
  | between : Visits s s.machine
  | during {request : HostRequest} {start a : Moment}
      (hstart : request.start? s.machine = some start) (ha : Moment.Reaches start a) :
      Visits s a.machine

theorem follows_of_reaches (h : Follows R Admitted) (hone : Admitted 1) (hthree : Admitted 3)
    {request : HostRequest} {start a : Moment} (hstart : request.start? s.machine = some start)
    (ha : Moment.Reaches start a) : R s.machine.store a.machine.store := by
  refine ha.invariant (P := fun b => R s.machine.store b.machine.store) ?_ fun b c _ hb hmove => ?_
  · obtain ⟨n, hn⟩ := HostRequest.exists_of_start? hstart
    rw [hn]
    exact Std.Refl.refl s.machine.store
  · have hstep := (Machine.leads_follows_advance h hone hthree b.control).of_ok hmove.1
    exact IsTrans.trans _ _ _ hb hstep

theorem Visits.follows (hm : s.Visits m) (h : Follows R Admitted) (hone : Admitted 1)
    (hthree : Admitted 3) : R s.machine.store m.store := by
  cases hm with
  | between => exact Std.Refl.refl s.machine.store
  | during hstart ha => exact follows_of_reaches h hone hthree hstart ha

/-! ### Sizes and bounds -/

/-- The sizes of the spaces are those with which the store was built, wherever a session gets to. -/
theorem Arises.shape_of_visits {config : Config} {program : Program} {console : Console}
    (hs : Arises config program console s) (hm : s.Visits m) :
    ∃ built, Store.ofConfig config = .ok built ∧ m.store.shape = built.shape := by
  obtain ⟨loaded, fuel, requests, answers, hload, hserve⟩ := hs
  obtain ⟨built, store, hbuilt, hseed, rfl⟩ := Machine.load_iff.mp hload
  have hstore : store.shape = built.shape := (Store.keeps_seed program.data).of_ok hseed
  have hsession : s.machine.store.shape = store.shape :=
    serveAll_invariant (P := fun s => s.machine.store.shape = store.shape)
      (fun _ _ _ _ hs ho => (shape_of_serve ho).trans hs) rfl hserve
  have hvisit : m.store.shape = s.machine.store.shape :=
    hm.follows Store.follows_sameShape trivial trivial
  exact ⟨built, hbuilt, hvisit.trans (hsession.trans hstore)⟩

/-- **The stack pointer stays between the two ends of the stack**, if no count is reserved that is
too large. -/
theorem exists_level_of_serveAll {config : Config} {program : Program} {console : Console}
    {loaded : Machine} (hload : Machine.load config program console = .ok loaded) {fuel : Nat}
    {requests : List HostRequest} {answers : List (Except Fault Answer)}
    (hserve : serveAll fuel requests ⟨loaded, #[]⟩ = some (answers, s))
    (hrequests : ∀ count, .direct (.store (.reserve count)) ∈ requests →
      count.toNat < 4611686018427387904) (hm : s.Visits m) :
    ∃ k, m.store.Level config.growth config.memory k := by
  obtain ⟨built, store, hbuilt, hseed, rfl⟩ := Machine.load_iff.mp hload
  have hstays : Store.Follows (Store.StaysLevel config.growth config.memory) _ :=
    Store.follows_staysLevel
  have hstore : ∃ k, store.Level config.growth config.memory k :=
    (Machine.leads_follows_seed hstays program.data).of_ok hseed ⟨0, Store.level_ofConfig hbuilt⟩
  refine hm.follows hstays (by decide) (by decide) ?_
  refine serveAll_invariant
    (P := fun s => ∃ k, s.machine.store.Level config.growth config.memory k)
    (fun request hmem s o hs ho => ?_) hstore hserve
  exact follows_of_serve hstays (by decide) (by decide)
    (fun count hc => hrequests count (hc ▸ hmem)) ho hs

end Session

end WordMachine

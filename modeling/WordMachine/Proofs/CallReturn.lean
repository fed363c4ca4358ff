/-
Calls return to their callers.

A frame keeps the caller's frame pointer and the return address in memory, where the program can
overwrite them.  As long as nothing does, what `Frame.exit` reads back is what `Frame.enter` put
there, for calls nested to any depth.

* `Moment.Matched` is the invariant: the frame pointer is that of the frame entered last, each live
  frame keeps the frame pointer of the one entered before it, and their cells say who entered them;
* `Moment.Matched.next`: a move that spares the cells of the live frames preserves it, and
  `Moment.Matched.reaches`: so does an execution;
* `Moment.Matched.leave`: a frame that is left is the one entered last, and its caller goes on;
* `Moment.WithinCall`: while a call of the host is under way, the oldest live frame is the host's;
* `frames_return_to_their_callers`: both for runs and for calls of the host.
-/
import WordMachine.Proofs.Labels
import WordMachine.Proofs.Moment

namespace WordMachine

/-! ### Callers -/

namespace Caller

/-- Where control goes when a frame is left, by who entered it. -/
def continuation : Caller → Control
  | host => .gone .returned
  | block resume => .dispatch resume

/-- A call of the host is in flight, or the label to go on at exists. -/
def Known (m : Machine) : Caller → Prop
  | host => 0 < m.hostCalls
  | block resume => resume.index.toNat < m.program.blocks.size

theorem Known.of_setting {m m' : Machine} {caller : Caller}
    (hset : m'.setting Store.shape = m.setting Store.shape) (h : caller.Known m) :
    caller.Known m' := by
  cases caller with
  | host =>
    have hcalls : m'.hostCalls = m.hostCalls := congrArg (fun v => v.2.2.1) hset
    rw [Known, hcalls]
    exact h
  | block resume =>
    have hprogram : m'.program = m.program := congrArg Prod.fst hset
    rw [Known, hprogram]
    exact h

/-- The return address of a caller leads back to the caller. -/
theorem advance_landing {m : Machine} {caller : Caller}
    (hsize : m.program.blocks.size ≤ 2147483648) (h : caller.Known m) :
    Machine.advance (.landing caller.returnAddress) m = .ok caller.continuation m := by
  cases caller with
  | host => exact Machine.advance_of_move (.landHost rfl h)
  | block resume =>
    have hlt : resume.index.toNat < m.program.blocks.size := h
    refine Machine.advance_of_move (.landBlock ?_ (Program.resolve_toWord hsize hlt))
    rintro ⟨haddress, -⟩
    exact Label.toWord_ne_hostReturn (by omega) haddress

end Caller

/-- The caller that a call transfer is. -/
def Transfer.caller? : Transfer → Option Caller
  | .call _ _ resume => some (.block resume)
  | _ => none

/-- The caller whose frame is about to be entered. -/
def Control.caller? : Control → Option Caller
  | .inside _ t => t.caller?
  | .entering _ _ caller => some caller
  | _ => none

/-- A transfer names the label that it goes on at after a call. -/
theorem Transfer.mem_targets {t : Transfer} {caller : Caller} (h : caller ∈ t.caller?) :
    ∃ resume ∈ t.targets, caller = .block resume := by
  cases t with
  | call callee r resume =>
    cases h
    refine ⟨resume, ?_, rfl⟩
    cases callee <;> simp [Transfer.targets]
  | _ => cases h

/-! ### Live frames -/

/-- The cells of a live frame hold what was put there when it was entered. -/
structure LiveFrame.Kept (m : Machine) (f : LiveFrame) : Prop where
  returnAddress :
    m.store.memory.read? (f.fp + Frame.returnAddressOffset) = some f.caller.returnAddress
  savedFp : m.store.memory.read? (f.fp + Frame.savedFpOffset) = some f.callerFp
  sp_eq : Frame.callerSp m.store.growth f.fp = f.callerSp
  known : f.caller.Known m

/-- Frames are linked from a frame pointer on: each saved frame pointer is that of the frame
entered before. -/
def Linked : Word → List LiveFrame → Prop
  | _, [] => True
  | fp, f :: older => fp = f.fp ∧ Linked f.callerFp older

namespace Moment

/-- A move that may write memory leaves the return address and the saved frame pointer of the live
frames as they are. -/
def Spares (a b : Moment) : Prop :=
  a.control.writes → ∀ f ∈ a.live, ∀ offset ∈ [Frame.returnAddressOffset, Frame.savedFpOffset],
    b.machine.store.memory.read? (f.fp + offset) = a.machine.store.memory.read? (f.fp + offset)

/-- Every move of an execution spares the live frames. -/
def Undisturbed (start : Moment) : Prop :=
  ∀ a b, Reaches start a → Next a b → Spares a b

/-- The live frames are as they were entered, and the machine is in the one entered last. -/
structure Matched (a : Moment) : Prop where
  labels : ∀ l ∈ a.machine.program.references, l.index.toNat < a.machine.program.blocks.size
  linked : Linked a.machine.store.fp a.live
  kept : ∀ f ∈ a.live, f.Kept a.machine
  pending : ∀ caller ∈ a.control.caller?, caller.Known a.machine

theorem matched_ofRun {m : Machine} (h : m.program.Built) : (ofRun m).Matched where
  labels := h.names
  linked := trivial
  kept := by rintro _ ⟨⟩
  pending := by rintro _ ⟨⟩

theorem matched_ofCall {m : Machine} (h : m.program.Built) (callee : Callee) (argument : Word) :
    (ofCall callee argument m).Matched where
  labels := h.names
  linked := trivial
  kept := by rintro _ ⟨⟩
  pending := by
    rintro _ ⟨⟩
    exact Nat.succ_pos m.hostCalls

/-! ### One move -/

/-- The cells of a live frame stay as they are: no other move than those that `Spares` speaks of
writes memory. -/
theorem kept_next {a b : Moment} (h : Next a b) (hs : Spares a b) {f : LiveFrame}
    (hf : f ∈ a.live) (hk : f.Kept a.machine) : f.Kept b.machine := by
  have hread : ∀ offset ∈ [Frame.returnAddressOffset, Frame.savedFpOffset],
      b.machine.store.memory.read? (f.fp + offset) =
        a.machine.store.memory.read? (f.fp + offset) := by
    intro offset hoffset
    -- Moves that cannot write leave all of memory alone, whatever `Spares` says.
    by_cases hw : a.control.writes
    · exact hs hw f hf offset hoffset
    · rw [h.memory_eq hw]
  have hgrowth : b.machine.store.growth = a.machine.store.growth :=
    congrArg (fun v => v.2.2.2.growth) h.setting_eq
  refine ⟨?_, ?_, ?_, hk.known.of_setting h.setting_eq⟩
  · rw [hread _ (by simp), hk.returnAddress]
  · rw [hread _ (by simp), hk.savedFp]
  · rw [hgrowth, hk.sp_eq]

/-- A caller whose frame is about to be entered is known, from the dispatch of its block on. -/
theorem pending_next {a b : Moment} (h : Next a b) (ha : a.Matched) :
    ∀ caller ∈ b.control.caller?, caller.Known b.machine := by
  intro caller hc
  refine Caller.Known.of_setting h.setting_eq ?_
  obtain ⟨c, m, live⟩ := a
  obtain ⟨c', m', live'⟩ := b
  cases h.move with
  | @dispatch l b _ _ hblock =>
    obtain ⟨resume, hmem, rfl⟩ := Transfer.mem_targets hc
    -- The label stands in the block that is dispatched, so it is one that the program names.
    refine ha.labels resume (Program.targets_subset ?_ hmem)
    exact Array.mem_toList_iff.mpr (Array.mem_of_getElem? (Program.block_eq_ok.mp hblock))
  | execute _ => exact ha.pending caller hc
  | call _ => exact ha.pending caller hc
  | _ => cases hc

/-- The frame that a move enters is kept, and its callers are where the machine was. -/
theorem kept_enter {m m' : Machine} {argument : Word} {caller : Caller} {record : CallRecord}
    (h : Machine.onWorld (World.enterFrame argument caller.returnAddress) m = .ok record m')
    (hk : caller.Known m) :
    LiveFrame.Kept m' ⟨caller, m'.store.fp, m.store.sp, m.store.fp⟩ := by
  have hset := (Machine.keeps_onWorld (World.keeps_enterFrame _ _)).of_ok h
  obtain ⟨s, hs, hm⟩ := Machine.enterFrame_eq_ok.mp h
  obtain ⟨-, hroom, -, hs⟩ := Frame.enter_eq_ok.mp hs
  obtain ⟨-, hret, hsaved⟩ := Frame.read?_lay argument caller.returnAddress m.store.fp hroom
  have hfp : m'.store.fp = Frame.entryFp m.store := by rw [hm, hs]
  have hmemory : m'.store.memory = Frame.lay m.store.memory (Frame.entryFp m.store) argument
      caller.returnAddress m.store.fp := by rw [hm, hs]
  have hgrowth : m'.store.growth = m.store.growth := congrArg (fun v => v.2.2.2.growth) hset
  constructor
  case returnAddress => rw [hmemory, hfp, hret]
  case savedFp => rw [hmemory, hfp, hsaved]
  case sp_eq => rw [hgrowth, hfp, Frame.callerSp_entryFp]
  case known => exact hk.of_setting hset

/-- Leaving a frame takes the machine back to what the frame that was entered last keeps. -/
theorem Matched.leave {a b : Moment} (ha : a.Matched) (h : Next a b) {record : CallRecord}
    {completion : Completion} (hc : a.control = .leaving record completion) {f : LiveFrame}
    {older : List LiveFrame} (hlive : a.live = f :: older) :
    a.machine.store.fp = f.fp ∧ b.control = .landing f.caller.returnAddress ∧ b.live = older ∧
      b.machine.store.sp = f.callerSp ∧ b.machine.store.fp = f.callerFp ∧
      b.machine.store.registers.cells[Frame.valueRegister]? = some completion.value ∧
      b.machine.lastCall.map CallRecord.value = some completion.value := by
  obtain ⟨c, m, live⟩ := a
  obtain ⟨c', m', live'⟩ := b
  cases hc
  cases hlive
  obtain ⟨hfp, -⟩ := ha.linked
  have hk := ha.kept f (List.mem_cons_self)
  have hlive' : live' = older := h.2
  cases h.move with
  | leave hleave =>
    obtain ⟨act, hexit, rfl⟩ := Machine.leave_eq_ok.mp (Machine.vacate_eq_ok.mp hleave).2
    obtain ⟨callerFp, -, -, hret, hsaved, hreg, -, -, rfl⟩ := Frame.exit_eq_ok.mp hexit
    obtain ⟨hret, -⟩ := Store.read?_of_frameLoad hret
    obtain ⟨hsaved, -⟩ := Store.read?_of_frameLoad hsaved
    -- What the exit read relative to the frame pointer is what the live frame keeps.
    rw [show m.store.fp = f.fp from hfp] at hret hsaved
    rw [hk.returnAddress] at hret
    rw [hk.savedFp] at hsaved
    cases hret
    cases hsaved
    refine ⟨hfp, rfl, hlive', ?_, rfl, ?_, rfl⟩
    · show Frame.callerSp m.store.growth m.store.fp = f.callerSp
      rw [show m.store.fp = f.fp from hfp]
      exact hk.sp_eq
    · show (m.store.registers.cells.setIfInBounds Frame.valueRegister completion.value)[_]? = _
      exact Array.getElem?_setIfInBounds_self_of_lt hreg

/-- **A move that spares the live frames keeps them matched.** -/
theorem Matched.next {a b : Moment} (ha : a.Matched) (h : Next a b) (hs : Spares a b) :
    b.Matched := by
  have hprogram : b.machine.program = a.machine.program := congrArg Prod.fst h.setting_eq
  have hkept : ∀ f ∈ a.live, f.Kept b.machine := fun f hf => kept_next h hs hf (ha.kept f hf)
  have hpending := pending_next h ha
  have hlabels := ha.labels
  rw [← hprogram] at hlabels
  -- A frame comes, a frame goes, or the frames stay as they are.
  by_cases hframes : a.control.crosses
  · obtain ⟨c, m, live⟩ := a
    cases c with
    | entering callee argument caller =>
      have hlive : b.live = ⟨caller, b.machine.store.fp, m.store.sp, m.store.fp⟩ :: live := h.2
      have hnew : LiveFrame.Kept b.machine
          ⟨caller, b.machine.store.fp, m.store.sp, m.store.fp⟩ := by
        have hknown : caller.Known m := ha.pending caller rfl
        obtain ⟨c', m', live'⟩ := b
        cases h.move with
        | enterRoutine _ henter => exact kept_enter henter hknown
        | enterIntrinsic _ henter => exact kept_enter henter hknown
      refine ⟨hlabels, ?_, ?_, hpending⟩
      · rw [hlive]
        exact ⟨rfl, ha.linked⟩
      · rw [hlive]
        intro f hf
        rcases List.mem_cons.mp hf with rfl | hf
        · exact hnew
        · exact hkept f hf
    | leaving record completion =>
      have hlive : b.live = live.tail := h.2
      cases live with
      | nil =>
        -- A frame of an earlier execution is left: nothing is known of it, and none is live.
        refine ⟨hlabels, ?_, ?_, hpending⟩
        · rw [hlive]
          trivial
        · rw [hlive]
          rintro _ ⟨⟩
      | cons f older =>
        obtain ⟨-, -, -, -, hfp, -, -⟩ := ha.leave h rfl rfl
        refine ⟨hlabels, ?_, ?_, hpending⟩
        · rw [hlive, hfp]
          exact ha.linked.2
        · rw [hlive]
          intro g hg
          exact hkept g (List.mem_cons_of_mem f hg)
    | _ => cases hframes
  · refine ⟨hlabels, ?_, ?_, hpending⟩
    · rw [h.fp_eq hframes, h.live_eq hframes]
      exact ha.linked
    · rw [h.live_eq hframes]
      exact hkept

/-! ### Whole executions -/

/-- What holds when an execution starts and is preserved by each of its moves holds throughout. -/
theorem Reaches.invariant {start : Moment} {P : Moment → Prop} (hstart : P start)
    (hnext : ∀ a b, Reaches start a → P a → Next a b → P b) {a : Moment}
    (h : Reaches start a) : P a := by
  induction h with
  | refl => exact hstart
  | tail hreach hmove ih => exact hnext _ _ hreach ih hmove

theorem Matched.reaches {start a : Moment} (hstart : start.Matched) (hs : Undisturbed start)
    (h : Reaches start a) : a.Matched :=
  h.invariant hstart fun a b hreach ha hmove => ha.next hmove (hs a b hreach hmove)

instance (a b : Moment) : Decidable (Spares a b) :=
  @instDecidableForall _ _ _ (LiveFrame.decidableCells _ _ _)

/-- Whether an execution that ends spares the live frames can be computed. -/
theorem undisturbed_of_gone {start : Moment} {n : Nat} {d : Departure}
    (hgone : (start.after n).control = .gone d)
    (h : ∀ k < n + 1, Spares (start.after k) (start.after k).next) : Undisturbed start := by
  intro a b ha hmove
  rw [hmove.eq_next]
  exact forall_reaches (P := fun a => Spares a a.next) hgone h ha

/-! ### Calls of the host -/

/-- The oldest live frame, and no other, was entered by the host, from a stack pointer and a frame
pointer. -/
def HostOldest (sp fp : Word) (live : List LiveFrame) : Prop :=
  ∃ inner f, live = inner ++ [f] ∧ f.caller = .host ∧ f.callerSp = sp ∧ f.callerFp = fp ∧
    ∀ g ∈ inner, g.caller ≠ .host

/-- The host's pointers are back and the value of the last call is in its register. -/
def Back (sp fp : Word) (m : Machine) : Prop :=
  m.store.sp = sp ∧ m.store.fp = fp ∧
    m.store.registers.cells[Frame.valueRegister]? = m.lastCall.map CallRecord.value

/-- How far a call that the host made from a stack pointer and a frame pointer has come. -/
def WithinCall (sp fp : Word) (a : Moment) : Prop :=
  match a.control with
  | .entering _ _ .host => a.live = [] ∧ a.machine.store.sp = sp ∧ a.machine.store.fp = fp
  | .landing address =>
    if address = Machine.hostReturn then Back sp fp a.machine else HostOldest sp fp a.live
  | .gone .returned => Back sp fp a.machine
  | .gone .halted => True
  | _ => HostOldest sp fp a.live

/-- Leaving a frame during a call of the host either is the end of the call or leaves the host's
frame where it is. -/
theorem WithinCall.leave {sp fp : Word} {a b : Moment}
    (hsize : a.machine.program.blocks.size ≤ 2147483648) (ha : a.Matched) (h : Next a b)
    {record : CallRecord} {completion : Completion} (hc : a.control = .leaving record completion)
    (hw : HostOldest sp fp a.live) : WithinCall sp fp b := by
  obtain ⟨inner, f, hlive, hhost, hsp, hfp, hinner⟩ := hw
  cases inner with
  | nil =>
    -- The frame of the host is the only one left, so this is the end of the call.
    obtain ⟨-, hcontrol, -, hsp', hfp', hvalue, hlast⟩ := ha.leave h hc hlive
    rw [WithinCall, hcontrol, hhost]
    exact ⟨hsp'.trans hsp, hfp'.trans hfp, hvalue.trans hlast.symm⟩
  | cons g inner =>
    obtain ⟨-, hcontrol, hlive', -, -, -, -⟩ := ha.leave h hc hlive
    have hmem : g ∈ a.live := hlive ▸ List.mem_cons_self
    have hg := hinner g List.mem_cons_self
    -- The frame of a block holds a label, which is not taken for the return address of the host.
    have hne : g.caller.returnAddress ≠ Machine.hostReturn := by
      have hknown := (ha.kept g hmem).known
      cases hcaller : g.caller with
      | host => exact absurd hcaller hg
      | block resume =>
        rw [hcaller] at hknown
        have hlt : resume.index.toNat < a.machine.program.blocks.size := hknown
        exact Label.toWord_ne_hostReturn (by omega)
    rw [WithinCall, hcontrol]
    show if _ then _ else _
    rw [if_neg hne, hlive']
    exact ⟨inner, f, rfl, hhost, hsp, hfp, fun k hk => hinner k (List.mem_cons_of_mem g hk)⟩

/-- Entering a frame during a call of the host puts it above the host's frame. -/
theorem hostOldest_enter {sp fp : Word} {callee : Callee} {argument : Word} {caller : Caller}
    {m m' : Machine} {live : List LiveFrame}
    (hw : WithinCall sp fp ⟨.entering callee argument caller, m, live⟩) :
    HostOldest sp fp (⟨caller, m'.store.fp, m.store.sp, m.store.fp⟩ :: live) := by
  cases caller with
  | host =>
    obtain ⟨rfl, hsp, hfp⟩ := hw
    exact ⟨[], _, rfl, rfl, hsp, hfp, by rintro _ ⟨⟩⟩
  | block resume =>
    obtain ⟨inner, f, rfl, hhost, hsp, hfp, hinner⟩ := hw
    refine ⟨_ :: inner, f, rfl, hhost, hsp, hfp, ?_⟩
    intro g hg
    rcases List.mem_cons.mp hg with rfl | hg
    · exact fun h => Caller.noConfusion h
    · exact hinner g hg

theorem WithinCall.next {sp fp : Word} {a b : Moment}
    (hsize : a.machine.program.blocks.size ≤ 2147483648) (ha : a.Matched) (h : Next a b)
    (hw : WithinCall sp fp a) : WithinCall sp fp b := by
  by_cases hleave : ∃ record completion, a.control = .leaving record completion
  · obtain ⟨record, completion, hc⟩ := hleave
    rw [WithinCall, hc] at hw
    exact WithinCall.leave hsize ha h hc hw
  · obtain ⟨c, m, live⟩ := a
    obtain ⟨c', m', live'⟩ := b
    have hlive : live' = liveAfter _ m' := h.2
    cases h.move with
    | leave _ => exact absurd ⟨_, _, rfl⟩ hleave
    | halt => trivial
    | enterRoutine _ _ =>
      subst hlive
      exact hostOldest_enter hw
    | enterIntrinsic _ _ =>
      subst hlive
      exact hostOldest_enter hw
    | landHost haddress _ =>
      rw [WithinCall, haddress] at hw
      exact hw
    | @landBlock address _ _ _ hl =>
      -- the host's return address stands for no label
      have hne : address ≠ Machine.hostReturn := by
        rintro rfl
        cases hl
      replace hw : if address = Machine.hostReturn then Back sp fp m
        else HostOldest sp fp live := hw
      rw [if_neg hne] at hw
      subst hlive
      exact hw
    | _ =>
      subst hlive
      exact hw

/-- No execution changes the program. -/
theorem Reaches.program_eq {start a : Moment} (h : Reaches start a) :
    a.machine.program = start.machine.program :=
  h.invariant (P := fun a => a.machine.program = start.machine.program) rfl
    fun _ _ _ heq hmove => (congrArg Prod.fst hmove.setting_eq).trans heq

/-- A call of the host that comes back brings the host's pointers back. -/
theorem back_of_returned {m m' : Machine} {callee : Callee} {argument : Word}
    {live : List LiveFrame} (hprogram : m.program.Built)
    (hsize : m.program.blocks.size ≤ 2147483648) (hs : (ofCall callee argument m).Undisturbed)
    (h : Reaches (ofCall callee argument m) ⟨.gone .returned, m', live⟩) :
    Back m.store.sp m.store.fp m' := by
  have hmatched := matched_ofCall hprogram callee argument
  have hstart : WithinCall m.store.sp m.store.fp (ofCall callee argument m) := ⟨rfl, rfl, rfl⟩
  refine h.invariant (P := WithinCall m.store.sp m.store.fp) hstart ?_
  intro a b hreach hw hmove
  have hsize' : a.machine.program.blocks.size ≤ 2147483648 := hreach.program_eq ▸ hsize
  exact hw.next hsize' (hmatched.reaches hs hreach) hmove

end Moment

/-! ### Outcomes of calls of the host -/

namespace Machine

/-- Flushing changes the console and nothing else. -/
theorem ok_of_flushed {α : Type} {o : Outcome Machine α} {a : α} {m' : Machine}
    (h : flushed o = .ok a m') : ∃ m c, o = .ok a m ∧ m' = { m with console := c } := by
  cases o with
  | error f m =>
    rw [flushed] at h
    split at h <;> cases h
  | ok b m =>
    rw [flushed, onConsole, onWorld_apply, World.onConsole_apply] at h
    cases hc : Console.flush m.toWorld.console with
    | ok u c =>
      rw [hc] at h
      cases h
      exact ⟨m, c, rfl, rfl⟩
    | error f c =>
      rw [hc] at h
      cases h

theorem callOutcome_eq_ok {o : Outcome Machine Departure} {record : CallRecord} {m' : Machine} :
    callOutcome o = .ok record m' ↔ o = .ok .returned m' ∧ m'.lastCall = some record := by
  rcases o with ⟨_ | _, m⟩ | ⟨f, m⟩
  · rw [callOutcome]
    cases h : m.lastCall with
    | none => grind
    | some r => grind
  · simp [callOutcome]
  · simp [callOutcome]

/-- A call of the host that succeeds came back, and neither the store nor the record of the call
has changed since. -/
theorem pursue_of_call {fuel : Nat} {callee : Callee} {argument : Word} {m m' : Machine}
    {record : CallRecord} (h : call fuel callee argument m = some (.ok record m')) :
    ∃ n m₁, pursue n (.entering callee argument .host) m.beginCall = some (.ok .returned m₁) ∧
      m₁.lastCall = some record ∧ m'.store = m₁.store := by
  obtain ⟨n, o, hn, ho⟩ := call_iff_pursue.mp ⟨fuel, h⟩
  obtain ⟨hflush, hrecord⟩ := callOutcome_eq_ok.mp ho
  obtain ⟨m₂, c, hwithin, rfl⟩ := ok_of_flushed hflush
  obtain ⟨m₁, rfl, rfl⟩ := Outcome.within_eq_ok.mp hwithin
  exact ⟨n, m₁, hn, hrecord, rfl⟩

end Machine

/-- The moments in which executions on a machine start. -/
inductive Moment.Starts (m : Machine) : Moment → Prop
  | run : Starts m (ofRun m)
  | call (callee : Callee) (argument : Word) : Starts m (ofCall callee argument m)

theorem Moment.Starts.matched {m : Machine} {start : Moment} (h : Starts m start)
    (hprogram : m.program.Built) : start.Matched := by
  cases h with
  | run => exact matched_ofRun hprogram
  | call callee argument => exact matched_ofCall hprogram callee argument

theorem Moment.Starts.program_eq {m : Machine} {start : Moment} (h : Starts m start) :
    start.machine.program = m.program := by
  cases h with
  | run => rfl
  | call callee argument => rfl

/-- **Calls return to their callers.**  In an execution that spares the cells of its live frames, a
frame that is left while frames are live is the one entered last; the stack pointer and the frame
pointer are then what they were before it was entered, the value is in its register, and control
goes on where its caller asked.  A call of the host that succeeds leaves both pointers as they
were. -/
theorem frames_return_to_their_callers {m : Machine} (hprogram : m.program.Built)
    (hsize : m.program.blocks.size ≤ 2147483648) :
    (∀ start, Moment.Starts m start → start.Undisturbed →
      ∀ a b record completion f older, Moment.Reaches start a →
        a.control = .leaving record completion → a.live = f :: older → Moment.Next a b →
        a.machine.store.fp = f.fp ∧ b.live = older ∧
        b.machine.store.sp = f.callerSp ∧ b.machine.store.fp = f.callerFp ∧
        b.machine.store.registers.cells[Frame.valueRegister]? = some completion.value ∧
        Machine.advance b.control b.machine = .ok f.caller.continuation b.machine) ∧
    ∀ callee argument, (Moment.ofCall callee argument m).Undisturbed →
      ∀ fuel record m', Machine.call fuel callee argument m = some (.ok record m') →
        m'.store.sp = m.store.sp ∧ m'.store.fp = m.store.fp ∧
        m'.store.registers.cells[Frame.valueRegister]? = some record.value := by
  constructor
  · intro start hstart hs a b record completion f older hreach hc hlive hmove
    have hmatched : a.Matched := (hstart.matched hprogram).reaches hs hreach
    obtain ⟨hfp, hcontrol, hlive', hsp, hfp', hvalue, -⟩ := hmatched.leave hmove hc hlive
    refine ⟨hfp, hlive', hsp, hfp', hvalue, ?_⟩
    have hknown : f.caller.Known a.machine := (hmatched.kept f (hlive ▸ List.mem_cons_self)).known
    have hreach' : Moment.Reaches start b := hreach.tail hmove
    have hsize' : b.machine.program.blocks.size ≤ 2147483648 := by
      rw [hreach'.program_eq, hstart.program_eq]
      exact hsize
    rw [hcontrol]
    exact Caller.advance_landing hsize' (hknown.of_setting hmove.setting_eq)
  · intro callee argument hs fuel record m' h
    obtain ⟨n, m₁, hn, hrecord, hstore⟩ := Machine.pursue_of_call h
    obtain ⟨live, hreach⟩ := Moment.reaches_of_pursue (a := .ofCall callee argument m) hn
    obtain ⟨hsp, hfp, hvalue⟩ := Moment.back_of_returned hprogram hsize hs hreach
    rw [hstore, hvalue, hrecord]
    exact ⟨hsp, hfp, rfl⟩

/-- An answer of which the result is known. -/
theorem Outcome.exists_of_toOption {σ α : Type} {o : Option (Outcome σ α)} {a : α}
    (h : (o.bind fun r => (Outcome.toExcept r).toOption) = some a) : ∃ s, o = some (.ok a s) := by
  rcases o with _ | ⟨b, s⟩ | ⟨f, s⟩
  · cases h
  · cases h
    exact ⟨s, rfl⟩
  · cases h

/-- Three routines: the first calls the second, which uses the stack, and goes on at the third. -/
def nestedCalls : Machine where
  store := ⟨.ofSize 3, .ofSize 8, .ofCapacity .downward 8, 7, .zero⟩
  console := {}
  config := { registers := 3, memory := 8, growth := .downward }
  program := ⟨⟨0⟩, #[⟨[.constant ⟨1⟩ 5], .call (.routine ⟨1⟩) ⟨1⟩ ⟨2⟩⟩,
    ⟨[.push ⟨1⟩, .pop ⟨2⟩], .ret (some ⟨1⟩)⟩, ⟨[], .ret (some ⟨0⟩)⟩], []⟩

/-- The host calls the first of the three routines. -/
def nestedStart : Moment := .ofCall (.routine ⟨0⟩) 42 nestedCalls

theorem nestedCalls_return :
    (nestedStart.after 9).live = [⟨.block ⟨2⟩, 4, 4, 7⟩, ⟨.host, 7, 7, 7⟩] ∧
    (nestedStart.after 10).machine.store.sp = 4 ∧ (nestedStart.after 10).machine.store.fp = 7 ∧
    Machine.advance (nestedStart.after 10).control (nestedStart.after 10).machine =
      .ok (.dispatch ⟨2⟩) (nestedStart.after 10).machine ∧
    ∃ m', Machine.call 4 (.routine ⟨0⟩) 42 nestedCalls =
        some (.ok ⟨42, -1, 5, .ok, .dispatched⟩ m') ∧
      m'.store.sp = 7 ∧ m'.store.fp = 7 ∧
      m'.store.registers.cells[Frame.valueRegister]? = some 5 := by
  have hprogram : nestedCalls.program.Built :=
    .ofBlocks (Program.ofBlocks_eq_ok.mpr ⟨rfl, by decide +kernel⟩)
  have hs : nestedStart.Undisturbed := by
    refine Moment.undisturbed_of_gone (n := 15) (d := .returned) ?_ ?_
    · decide +kernel
    · decide +kernel
  have hlive : (nestedStart.after 9).live = [⟨.block ⟨2⟩, 4, 4, 7⟩, ⟨.host, 7, 7, 7⟩] := by
    decide +kernel
  have hcontrol : (nestedStart.after 9).control = .leaving ⟨5, 2, 0, .ok, .inBody⟩ ⟨5, .ok⟩ := by
    decide +kernel
  have hmove : Moment.Next (nestedStart.after 9) (nestedStart.after 10) :=
    Moment.next_of_ne (by decide +kernel)
  have hresult : ((Machine.call 4 (.routine ⟨0⟩) 42 nestedCalls).bind fun r =>
      (Outcome.toExcept r).toOption) = some ⟨42, -1, 5, .ok, .dispatched⟩ := by decide +kernel
  -- The tenth move leaves the inner of the two frames, and the call comes back after that.
  obtain ⟨hexit, hcall⟩ := frames_return_to_their_callers hprogram (by decide +kernel)
  obtain ⟨-, -, hsp, hfp, -, hgo⟩ := hexit nestedStart (.call _ _) hs _ _ _ _ _ _
    (Moment.reaches_after nestedStart 9) hcontrol hlive hmove
  obtain ⟨m', hm'⟩ := Outcome.exists_of_toOption hresult
  obtain ⟨hsp', hfp', hvalue⟩ := hcall _ _ hs 4 _ _ hm'
  have hpointers : nestedCalls.store.sp = 7 ∧ nestedCalls.store.fp = 7 := by decide +kernel
  rw [hpointers.1] at hsp'
  rw [hpointers.2] at hfp'
  exact ⟨hlive, hsp, hfp, hgo, m', hm', hsp', hfp', hvalue⟩

end WordMachine

/-
The life of call records.

A host can keep the records of many calls at a time, and stage values on them and leave their frames
in any order, while it does other things to the store.  The store knows nothing of the records: what
holds them to their order is the phase that each of them is in.

* `CallRecord.Advances`: a record has come no less far, and the value that was staged on it stays;
* `CallRecord.Unwinds` is what an exit does to a record, also where it fails halfway
  (`Frame.leads_unwinds_exit`);
* `Bench.Deed` is what a host may do, and `Bench.Turn` all that this can make of the records
  (`Bench.turn_of_perform`);
* `Bench.advances_of_le`: from one deed to a whole course of deeds, by induction;
* `Bench.inBody_or_staged`: a record is past its body only if a value was staged on it;
* `records_live_once` puts these together.
-/
import WordMachine.Proofs.Atomicity

namespace WordMachine

open WordMachine.Action (Keeps Leads Through leads_pure leads_get)

/-- The phases that follow a phase are those of no smaller rank. -/
theorem Phase.mem_chain_iff {p q : Phase} : q ∈ p.chain ↔ p.rank ≤ q.rank := by
  cases p <;> cases q <;> decide

theorem Phase.next?_eq_valueStaged {p : Phase} : p.next? = some .valueStaged ↔ p = .inBody := by
  cases p <;> decide

/-! ### One record -/

namespace CallRecord

/-- The record has come no less far, and a value that was staged on it is still there. -/
structure Advances (r r' : CallRecord) : Prop where
  rank : r.phase.rank ≤ r'.phase.rank
  value : Phase.inBody.rank < r.phase.rank → r'.value = r.value

theorem Advances.rfl {r : CallRecord} : r.Advances r := ⟨Nat.le_refl _, fun _ => Eq.refl _⟩

theorem Advances.trans {r r' r'' : CallRecord} (h : r.Advances r') (h' : r'.Advances r'') :
    r.Advances r'' where
  rank := Nat.le_trans h.rank h'.rank
  value hr := (h'.value (Nat.lt_of_lt_of_le hr h.rank)).trans (h.value hr)

/-- Of a record no more has changed than what changes after a value was staged. -/
structure Unwinds (r r' : CallRecord) : Prop where
  value : r'.value = r.value
  phase : r'.phase = r.phase ∨ Phase.valueStaged.rank < r'.phase.rank

instance : Std.Refl Unwinds := ⟨fun _ => ⟨rfl, .inl rfl⟩⟩

instance : IsTrans CallRecord Unwinds where
  trans r r' r'' h h' := by
    refine ⟨h'.value.trans h.value, ?_⟩
    rcases h'.phase with hphase | hphase
    · rw [hphase]
      exact h.phase
    · exact .inr hphase

theorem Unwinds.advances {r r' : CallRecord} (h : r.Unwinds r') (hr : r.phase = .valueStaged) :
    r.Advances r' := by
  refine ⟨?_, fun _ => h.value⟩
  rcases h.phase with hphase | hphase
  · exact Nat.le_of_eq (congrArg Phase.rank hphase.symm)
  · rw [hr]
    exact Nat.le_of_lt hphase

end CallRecord

namespace Frame

open Activation (onStore onRecord)

/-- **An exit does no more to its record than what follows a staged value**, whether it succeeds or
fails. -/
theorem leads_unwinds_exit : Leads (Through Activation.record CallRecord.Unwinds) exit := by
  have hready : Leads (Through Activation.record CallRecord.Unwinds) ready := by
    intro a
    have hsame : Outcome.state (ready a) = a := keeps_id_ready a
    rw [hsame]
    exact Std.Refl.refl a.record
  have hstore : ∀ {β : Type} (x : Action Store β),
      Leads (Through Activation.record CallRecord.Unwinds) (onStore x) := by
    intro β x a
    rw [Activation.onStore_apply, Outcome.state_within]
    exact Std.Refl.refl a.record
  have hrecord : ∀ (p : Phase) {x : Action CallRecord Unit}, Phase.valueStaged.rank < p.rank →
      (∀ r, (Outcome.state (x r)).value = r.value ∧ (Outcome.state (x r)).phase = p) →
      Leads (Through Activation.record CallRecord.Unwinds) (onRecord x) := by
    intro p x hp hx a
    rw [Activation.onRecord_apply, Outcome.state_within]
    exact ⟨(hx a.record).1, .inr ((hx a.record).2 ▸ hp)⟩
  rw [exit_eq]
  refine hready.bind fun _ => (hstore _).bind fun ra => (hstore _).bind fun callerFp => ?_
  refine leads_get.bind fun a => (hstore _).bind fun _ => ?_
  refine (hrecord .frameRestored (by decide) fun _ => ⟨rfl, rfl⟩).bind fun _ => ?_
  refine (hstore _).bind fun _ => (hstore _).bind fun _ => (hstore _).bind fun _ => ?_
  refine (hrecord .stackUnwound (by decide) fun _ => ⟨rfl, rfl⟩).bind fun _ => ?_
  exact (hrecord .dispatched (by decide) fun _ => ⟨rfl, rfl⟩).bind fun _ => leads_pure _

end Frame

/-! ### One deed -/

namespace Bench

/-- What a host does at a bench: it makes a request, or it has the body of an intrinsic run. -/
inductive Deed where
  | request (request : Request)
  | invoke (i : Intrinsic)
  deriving DecidableEq, Repr

namespace Deed

/-- A completion is staged on the record at a position. -/
abbrev stage (k : Nat) (completion : Completion) : Deed := .request (.frame (.stage k completion))

/-- The frame of the record at a position is left. -/
abbrev exit (k : Nat) : Deed := .request (.frame (.exit k))

def perform : Deed → Action Bench Answer
  | request r => serve r
  | invoke i => Bench.invoke i

end Deed

variable {b b' : Bench} {k : Nat} {r : CallRecord} {completion : Completion}

theorem setIfInBounds_same (h : b.records[k]? = some r) :
    b.records.setIfInBounds k r = b.records := by
  obtain ⟨hk, rfl⟩ := Array.getElem?_eq_some_iff.mp h
  rw [Array.setIfInBounds, dif_pos hk, Array.set_getElem_self]

theorem onCall_of_some (h : b.records[k]? = some r) (x : Action World.Call Answer) :
    onCall k x b =
      Outcome.within
        (fun c => { world := c.world, records := b.records.setIfInBounds k c.record })
        (x ⟨b.world, r⟩) := by
  rw [onCall, h]

theorem perform_stage (h : b.records[k]? = some r) (hphase : r.phase = .inBody) :
    (Deed.stage k completion).perform b =
      .ok (.record (Machine.staged r completion))
        { b with records := b.records.setIfInBounds k (Machine.staged r completion) } := by
  have hstage : CallRecord.stage completion r = .ok () (Machine.staged r completion) := by
    rw [CallRecord.stage_apply, if_pos (Phase.next?_eq_valueStaged.mpr hphase)]
    rfl
  show onCall k (stage completion) b = _
  rw [onCall_of_some h, stage, hstage]
  rfl

/-- Staging in any other phase fails and changes nothing. -/
theorem perform_stage_of_ne (h : b.records[k]? = some r) (hphase : r.phase ≠ .inBody) :
    (Deed.stage k completion).perform b = .error (.phaseOrder r.phase .valueStaged) b := by
  have hstage : CallRecord.stage completion r = .error (.phaseOrder r.phase .valueStaged) r := by
    rw [CallRecord.stage_apply, if_neg (mt Phase.next?_eq_valueStaged.mp hphase)]
  show onCall k (stage completion) b = _
  rw [onCall_of_some h, stage, hstage, Outcome.within_error, setIfInBounds_same h]

theorem perform_exit (h : b.records[k]? = some r) {ra : Word} {a : Frame.Activation}
    (hexit : Frame.exit ⟨b.world.store, r⟩ = .ok ra a) :
    ∃ journal, (Deed.exit k).perform b =
      .ok (.word ra)
        { world := { b.world with store := a.store, journal }
          records := b.records.setIfInBounds k a.record } := by
  have hactivation : World.Call.onActivation Frame.exit ⟨b.world, r⟩ =
      .ok ra ⟨{ b.world with store := a.store }, a.record⟩ :=
    Outcome.within_eq_ok.mpr ⟨a, hexit, rfl⟩
  refine ⟨b.world.journal.push (.frameExited a.store.fp a.store.sp a.record.value), ?_⟩
  show onCall k exit b = _
  rw [onCall_of_some h, exit, World.exitFrame, bind_assoc, Action.bind_of_ok hactivation]
  rfl

theorem perform_exit_of_error (h : b.records[k]? = some r) {f : Fault} {a : Frame.Activation}
    (hexit : Frame.exit ⟨b.world.store, r⟩ = .error f a) :
    (Deed.exit k).perform b =
      .error f
        { world := { b.world with store := a.store }
          records := b.records.setIfInBounds k a.record } := by
  have hactivation : World.Call.onActivation Frame.exit ⟨b.world, r⟩ =
      .error f ⟨{ b.world with store := a.store }, a.record⟩ := by
    rw [World.Call.onActivation_apply, hexit]
    rfl
  show onCall k exit b = _
  rw [onCall_of_some h, exit, World.exitFrame, bind_assoc, Action.bind_of_error hactivation]
  rfl

/-- Leaving a frame in any other phase than after staging fails and changes nothing. -/
theorem perform_exit_of_ne (h : b.records[k]? = some r) (hphase : r.phase ≠ .valueStaged) :
    (Deed.exit k).perform b = .error (.phaseOrder r.phase .frameRestored) b := by
  have hready : Frame.ready ⟨b.world.store, r⟩ =
      .error (.phaseOrder r.phase .frameRestored) ⟨b.world.store, r⟩ := by
    rw [Frame.ready, if_pos hphase]
  have hexit : Frame.exit ⟨b.world.store, r⟩ =
      .error (.phaseOrder r.phase .frameRestored) ⟨b.world.store, r⟩ :=
    Action.bind_of_error hready
  rw [perform_exit_of_error h hexit, setIfInBounds_same h]

/-- All that a deed can make of the records: nothing, or there is a new one, or one of them comes
further. -/
inductive Turn (b b' : Bench) : Deed → Prop
  | kept {d : Deed} (h : b'.records = b.records) : Turn b b' d
  | opened {d : Deed} {r : CallRecord} (hphase : r.phase = .inBody)
      (h : b'.records = b.records.push r) : Turn b b' d
  | staged {k : Nat} {completion : Completion} {r : CallRecord} (hr : b.records[k]? = some r)
      (hphase : r.phase = .inBody)
      (h : b'.records = b.records.setIfInBounds k (Machine.staged r completion)) :
      Turn b b' (.stage k completion)
  | unwound {k : Nat} {r r' : CallRecord} (hr : b.records[k]? = some r)
      (hphase : r.phase = .valueStaged) (hunwinds : r.Unwinds r')
      (h : b'.records = b.records.setIfInBounds k r') : Turn b b' (.exit k)

theorem records_onWorld {α : Type} (x : Action World α) (b : Bench) :
    (Outcome.state (onWorld x b)).records = b.records := by
  rw [onWorld_apply, Outcome.state_within]

/-- A record that is obtained from the store is in the phase of the body. -/
theorem turn_append {x : Action World CallRecord} {d : Deed} (b : Bench)
    (hx : ∀ r w, x b.world = .ok r w → r.phase = .inBody) :
    Turn b (Outcome.state ((onWorld x >>= append) b)) d := by
  have hrecords := records_onWorld x b
  cases h : onWorld x b with
  | error f c =>
    rw [h] at hrecords
    rw [Action.bind_of_error h]
    exact .kept hrecords
  | ok r c =>
    rw [h] at hrecords
    rw [Action.bind_of_ok h]
    obtain ⟨w, hw, -⟩ := Outcome.within_eq_ok.mp h
    refine .opened (hx r w hw) ?_
    show c.records.push r = b.records.push r
    rw [show c.records = b.records from hrecords]

theorem phase_of_enterFrame {argument returnAddress : Word} {w w' : World}
    (h : World.enterFrame argument returnAddress w = .ok r w') : r.phase = .inBody := by
  obtain ⟨_, _, hstore, hrest⟩ := Action.bind_eq_ok.mp h
  obtain ⟨s, hs, -⟩ := Outcome.within_eq_ok.mp hstore
  obtain ⟨-, -, rfl, -⟩ := Frame.enter_eq_ok.mp hs
  cases hrest
  rfl

theorem phase_of_active {w w' : World} (h : World.onStore Frame.active w = .ok r w') :
    r.phase = .inBody := by
  obtain ⟨s, hs, -⟩ := Outcome.within_eq_ok.mp h
  obtain ⟨_, _, -, hs⟩ := Action.bind_eq_ok.mp hs
  obtain ⟨_, _, -, hs⟩ := Action.bind_eq_ok.mp hs
  cases hs
  rfl

/-- A deed about a record that is not there does nothing. -/
theorem onCall_of_none (h : b.records[k]? = none) (x : Action World.Call Answer) :
    onCall k x b = .ok .noRecord b := by
  rw [onCall, h]

/-- A record is only put back, if it is the same as before. -/
theorem records_onCall (k : Nat) {x : Action World.Call Answer}
    (hx : Keeps World.Call.record x) (b : Bench) :
    (Outcome.state (onCall k x b)).records = b.records := by
  cases hr : b.records[k]? with
  | none =>
    rw [onCall_of_none hr]
    rfl
  | some r =>
    rw [onCall_of_some hr, Outcome.state_within, hx ⟨b.world, r⟩]
    exact setIfInBounds_same hr

theorem turn_stage (k : Nat) (completion : Completion) (b : Bench) :
    Turn b (Outcome.state ((Deed.stage k completion).perform b)) (.stage k completion) := by
  cases hr : b.records[k]? with
  | none =>
    have hnone : (Deed.stage k completion).perform b = .ok .noRecord b := onCall_of_none hr _
    rw [hnone]
    exact .kept rfl
  | some r =>
    by_cases hphase : r.phase = .inBody
    · rw [perform_stage hr hphase]
      exact .staged hr hphase rfl
    · rw [perform_stage_of_ne hr hphase]
      exact .kept rfl

theorem turn_exit (k : Nat) (b : Bench) :
    Turn b (Outcome.state ((Deed.exit k).perform b)) (.exit k) := by
  cases hr : b.records[k]? with
  | none =>
    have hnone : (Deed.exit k).perform b = .ok .noRecord b := onCall_of_none hr _
    rw [hnone]
    exact .kept rfl
  | some r =>
    by_cases hphase : r.phase = .valueStaged
    · -- From here on an exit may still fail, and then the record may have come further.
      have hunwinds := Frame.leads_unwinds_exit ⟨b.world.store, r⟩
      cases hexit : Frame.exit ⟨b.world.store, r⟩ with
      | ok ra a =>
        rw [hexit] at hunwinds
        obtain ⟨journal, hperform⟩ := perform_exit hr hexit
        rw [hperform]
        exact .unwound hr hphase hunwinds rfl
      | error f a =>
        rw [hexit] at hunwinds
        rw [perform_exit_of_error hr hexit]
        exact .unwound hr hphase hunwinds rfl
    · rw [perform_exit_of_ne hr hphase]
      exact .kept rfl

/-- **What a deed makes of the records**, whether it succeeds or fails. -/
theorem turn_of_perform (d : Deed) (b : Bench) : Turn b (Outcome.state (d.perform b)) d := by
  cases d with
  | invoke i =>
    refine .kept ?_
    have hrecords := records_onWorld i.body b
    show (Outcome.state (invoke i b)).records = b.records
    cases h : onWorld i.body b with
    | ok completion c =>
      rw [invoke, Action.bind_of_ok h]
      rwa [h] at hrecords
    | error f c =>
      rw [invoke, Action.bind_of_error h]
      rwa [h] at hrecords
  | request request =>
    cases request with
    | store request => exact .kept (records_onWorld _ b)
    | frame request =>
      cases request with
      | enter argument returnAddress =>
        exact turn_append b fun r w h => phase_of_enterFrame h
      | active => exact turn_append b fun r w h => phase_of_active h
      | stage k completion => exact turn_stage k completion b
      | exit k => exact turn_exit k b
      | record k =>
        exact .kept (records_onCall k (x := fun c => .ok (.record c.record) c) (fun _ => rfl) b)

/-! ### A course of deeds -/

/-- The bench after the first `n` deeds of a course, whether they succeeded or failed. -/
def course (deeds : ℕ → Deed) (b : Bench) : ℕ → Bench
  | 0 => b
  | n + 1 => Outcome.state ((deeds n).perform (course deeds b n))

variable {deeds : ℕ → Deed} {n : ℕ}

/-- A deed of a course stages a completion on a record, and succeeds. -/
def StagedAt (deeds : ℕ → Deed) (b : Bench) (n k : ℕ) (completion : Completion) : Prop :=
  deeds n = .stage k completion ∧
    ∃ r b', (Deed.stage k completion).perform (b.course deeds n) = .ok (.record r) b'

/-- A deed of a course leaves the frame of a record, and succeeds. -/
def ExitedAt (deeds : ℕ → Deed) (b : Bench) (n k : ℕ) : Prop :=
  deeds n = .exit k ∧ ∃ ra b', (Deed.exit k).perform (b.course deeds n) = .ok (.word ra) b'

theorem turn_course (deeds : ℕ → Deed) (b : Bench) (n : ℕ) :
    Turn (b.course deeds n) (b.course deeds (n + 1)) (deeds n) :=
  turn_of_perform (deeds n) (b.course deeds n)

/-- Replacing a record by one that has come no less far lets no record fall back. -/
theorem exists_advances_of_set {j : Nat} {r r' s : CallRecord} (hr : b.records[j]? = some r)
    (hadvances : r.Advances r') (h : b'.records = b.records.setIfInBounds j r')
    (hs : b.records[k]? = some s) : ∃ s', b'.records[k]? = some s' ∧ s.Advances s' := by
  rw [h]
  by_cases hk : j = k
  · subst hk
    obtain ⟨hj, -⟩ := Array.getElem?_eq_some_iff.mp hr
    obtain rfl : r = s := Option.some.inj (hr.symm.trans hs)
    exact ⟨r', Array.getElem?_setIfInBounds_self_of_lt hj, hadvances⟩
  · exact ⟨s, (Array.getElem?_setIfInBounds_ne hk).trans hs, .rfl⟩

theorem Turn.exists_advances {d : Deed} (h : Turn b b' d) (hr : b.records[k]? = some r) :
    ∃ r', b'.records[k]? = some r' ∧ r.Advances r' := by
  cases h with
  | kept h => exact ⟨r, h ▸ hr, .rfl⟩
  | @opened _ new _ h =>
    obtain ⟨hk, -⟩ := Array.getElem?_eq_some_iff.mp hr
    refine ⟨r, ?_, .rfl⟩
    rw [h, Array.getElem?_push_lt hk, ← hr, Array.getElem?_eq_getElem hk]
  | @staged j completion s hs hphase h =>
    refine exists_advances_of_set hs ⟨?_, ?_⟩ h hr
    · rw [hphase]
      show Phase.inBody.rank ≤ Phase.valueStaged.rank
      decide
    · intro hlate
      rw [hphase] at hlate
      exact absurd hlate (Nat.lt_irrefl _)
  | unwound hs hphase hunwinds h => exact exists_advances_of_set hs (hunwinds.advances hphase) h hr

/-- **Records only come further**, whatever is done in between. -/
theorem advances_of_le {i j : ℕ} (hij : i ≤ j) (hr : (b.course deeds i).records[k]? = some r) :
    ∃ r', (b.course deeds j).records[k]? = some r' ∧ r.Advances r' := by
  obtain ⟨m, rfl⟩ := Nat.exists_eq_add_of_le hij
  induction m with
  | zero => exact ⟨r, hr, .rfl⟩
  | succ m ih =>
    obtain ⟨r', hr', hadvances⟩ := ih (Nat.le_add_right i m)
    obtain ⟨r'', hr'', hadvances'⟩ := (turn_course deeds b (i + m)).exists_advances hr'
    exact ⟨r'', hr'', hadvances.trans hadvances'⟩

/-- If a record has come less far after `j` deeds than after `i + 1` deeds, then `j` is smaller. -/
theorem le_of_rank_lt {i j : ℕ} {s : CallRecord}
    (hr : (b.course deeds (i + 1)).records[k]? = some r)
    (hs : (b.course deeds j).records[k]? = some s) (h : s.phase.rank < r.phase.rank) : j ≤ i := by
  by_contra hlt
  obtain ⟨r', hr', hadvances⟩ := advances_of_le (Nat.lt_of_not_le hlt) hr
  obtain rfl : r' = s := Option.some.inj (hr'.symm.trans hs)
  exact absurd hadvances.rank (Nat.not_le_of_lt h)

/-- Where a value is staged, the record is in its body before. -/
theorem StagedAt.before (h : StagedAt deeds b n k completion) :
    ∃ r, (b.course deeds n).records[k]? = some r ∧ r.phase = .inBody := by
  obtain ⟨-, r', b', hok⟩ := h
  cases hr : (b.course deeds n).records[k]? with
  | none =>
    have hnone : (Deed.stage k completion).perform (b.course deeds n) = .ok .noRecord _ :=
      onCall_of_none hr _
    cases hnone.symm.trans hok
  | some r =>
    refine ⟨r, rfl, ?_⟩
    by_contra hphase
    cases (perform_stage_of_ne hr hphase).symm.trans hok

/-- After it, the record has the value and is in the next phase. -/
theorem StagedAt.after (h : StagedAt deeds b n k completion) :
    ∃ r, (b.course deeds (n + 1)).records[k]? = some r ∧ r.phase = .valueStaged ∧
      r.value = completion.value := by
  obtain ⟨r, hr, hphase⟩ := h.before
  obtain ⟨hk, -⟩ := Array.getElem?_eq_some_iff.mp hr
  refine ⟨Machine.staged r completion, ?_, rfl, rfl⟩
  rw [course, h.1, perform_stage hr hphase]
  exact Array.getElem?_setIfInBounds_self_of_lt hk

/-- Where a frame is left, a value was staged on the record before.  After it, the record has come
to its end and the value is in the register for values. -/
theorem ExitedAt.around (h : ExitedAt deeds b n k) :
    ∃ r r', (b.course deeds n).records[k]? = some r ∧ r.phase = .valueStaged ∧
      (b.course deeds (n + 1)).records[k]? = some r' ∧ r'.phase = .dispatched ∧
      (b.course deeds (n + 1)).world.store.registers.cells[Frame.valueRegister]? =
        some r.value := by
  obtain ⟨hdeed, _, _, hok⟩ := h
  cases hr : (b.course deeds n).records[k]? with
  | none =>
    have hnone : (Deed.exit k).perform (b.course deeds n) = .ok .noRecord _ := onCall_of_none hr _
    cases hnone.symm.trans hok
  | some r =>
    cases hexit : Frame.exit ⟨(b.course deeds n).world.store, r⟩ with
    | error f a => cases (perform_exit_of_error hr hexit).symm.trans hok
    | ok ra a =>
      obtain ⟨callerFp, hphase, -, -, -, hreg, -, -, rfl⟩ := Frame.exit_eq_ok.mp hexit
      obtain ⟨journal, hperform⟩ := perform_exit hr hexit
      obtain ⟨hk, -⟩ := Array.getElem?_eq_some_iff.mp hr
      refine ⟨r, { r with returnAddress := ra, phase := .dispatched }, rfl, hphase, ?_, rfl, ?_⟩
      · rw [course, hdeed, hperform]
        exact Array.getElem?_setIfInBounds_self_of_lt hk
      · rw [course, hdeed, hperform]
        exact Array.getElem?_setIfInBounds_self_of_lt hreg

/-- **A record is past its body only if a value was staged on it before.** -/
theorem inBody_or_staged (hb : b.records = #[]) (hr : (b.course deeds n).records[k]? = some r) :
    r.phase = .inBody ∨ ∃ i completion, i < n ∧ StagedAt deeds b i k completion := by
  induction n generalizing r with
  | zero =>
    rw [course, hb] at hr
    cases hr
  | succ n ih =>
    have hlater : ∀ {s : CallRecord}, (b.course deeds n).records[k]? = some s →
        s.phase = .inBody ∨ ∃ i completion, i < n + 1 ∧ StagedAt deeds b i k completion := by
      intro s hs
      rcases ih hs with hphase | ⟨i, completion, hi, hstaged⟩
      · exact .inl hphase
      · exact .inr ⟨i, completion, Nat.lt_succ_of_lt hi, hstaged⟩
    have hturn := turn_course deeds b n
    generalize hdeed : deeds n = d at hturn
    cases hturn with
    | kept h => exact hlater (h ▸ hr)
    | @opened _ new hphase h =>
      rw [h, Array.getElem?_push] at hr
      split at hr
      · cases hr
        exact .inl hphase
      · exact hlater hr
    | @staged j completion s hs hphase h =>
      by_cases hj : j = k
      · subst hj
        exact .inr ⟨n, completion, Nat.lt_succ_self n, hdeed, _, _, perform_stage hs hphase⟩
      · exact hlater ((Array.getElem?_setIfInBounds_ne hj).symm.trans (h ▸ hr))
    | @unwound j s s' hs hphase _ h =>
      by_cases hj : j = k
      · -- The record was past its body before, so the value was staged earlier.
        subst hj
        rcases hlater hs with hbody | hstaged
        · cases hphase.symm.trans hbody
        · exact .inr hstaged
      · exact hlater ((Array.getElem?_setIfInBounds_ne hj).symm.trans (h ▸ hr))

theorem StagedAt.unique {i j : ℕ} {completion' : Completion} (h : StagedAt deeds b i k completion)
    (h' : StagedAt deeds b j k completion') : i = j := by
  have hle : ∀ {i j : ℕ} {c c' : Completion}, StagedAt deeds b i k c → StagedAt deeds b j k c' →
      j ≤ i := by
    intro i j c c' hi hj
    obtain ⟨r, hr, hstaged, -⟩ := hi.after
    obtain ⟨s, hs, hbody⟩ := hj.before
    refine le_of_rank_lt hr hs ?_
    rw [hstaged, hbody]
    decide
  exact Nat.le_antisymm (hle h' h) (hle h h')

theorem ExitedAt.unique {i j : ℕ} (h : ExitedAt deeds b i k) (h' : ExitedAt deeds b j k) :
    i = j := by
  have hle : ∀ {i j : ℕ}, ExitedAt deeds b i k → ExitedAt deeds b j k → j ≤ i := by
    intro i j hi hj
    obtain ⟨-, r, -, -, hr, hend, -⟩ := hi.around
    obtain ⟨s, -, hs, hstaged, -⟩ := hj.around
    refine le_of_rank_lt hr hs ?_
    rw [hend, hstaged]
    decide
  exact Nat.le_antisymm (hle h' h) (hle h h')

/-- **A frame is left with the value that was staged on its own record**, some time before. -/
theorem ExitedAt.exists_staged (hb : b.records = #[]) (h : ExitedAt deeds b n k) :
    ∃ i completion r, i < n ∧ StagedAt deeds b i k completion ∧
      (b.course deeds (n + 1)).records[k]? = some r ∧ r.phase = .dispatched ∧
      (b.course deeds (n + 1)).world.store.registers.cells[Frame.valueRegister]? =
        some completion.value := by
  obtain ⟨r, r', hr, hphase, hr', hend, hregister⟩ := h.around
  rcases inBody_or_staged hb hr with hbody | ⟨i, completion, hi, hstaged⟩
  · cases hphase.symm.trans hbody
  · obtain ⟨s, hs, hphase', hvalue⟩ := hstaged.after
    obtain ⟨s', hs', hadvances⟩ := advances_of_le hi hs
    obtain rfl : s' = r := Option.some.inj (hs'.symm.trans hr)
    have hsame : s'.value = completion.value := by
      rw [hadvances.value (by rw [hphase']; decide), hvalue]
    exact ⟨i, completion, r', hi, hstaged, hr', hend, hsame ▸ hregister⟩

end Bench

/-- **Call records live once.**  Take a bench without records and let a host do whatever it likes,
one deed after another.  The phase of each record only moves forward along the chain of phases.  A
value is staged on a record at most once, and its frame is left at most once, and only after a value
was staged; the record is then in its last phase and register zero has the value that was staged on
this very record.  In the phase of the body a value can be staged.  In any other phase this fails,
and so does leaving the frame in any phase but the one after staging: the fault names the phase that
the record is in, and nothing is changed. -/
theorem records_live_once {b : Bench} (hb : b.records = #[]) (deeds : ℕ → Bench.Deed) :
    (∀ (i j k : ℕ) (r : CallRecord), i ≤ j → (b.course deeds i).records[k]? = some r →
      ∃ r' : CallRecord, (b.course deeds j).records[k]? = some r' ∧ r'.phase ∈ r.phase.chain) ∧
    (∀ i j k c c', Bench.StagedAt deeds b i k c → Bench.StagedAt deeds b j k c' → i = j) ∧
    (∀ i j k, Bench.ExitedAt deeds b i k → Bench.ExitedAt deeds b j k → i = j) ∧
    (∀ n k, Bench.ExitedAt deeds b n k → ∃ i c r, i < n ∧ Bench.StagedAt deeds b i k c ∧
      (b.course deeds (n + 1)).records[k]? = some r ∧ r.phase = .dispatched ∧
      (b.course deeds (n + 1)).world.store.registers.cells[0]? = some c.value) ∧
    ∀ (n k : ℕ) (r : CallRecord), (b.course deeds n).records[k]? = some r →
      (∀ c, if r.phase = .inBody then
          ∃ r' b', (Bench.Deed.stage k c).perform (b.course deeds n) = .ok (.record r') b'
        else (Bench.Deed.stage k c).perform (b.course deeds n) =
          .error (.phaseOrder r.phase .valueStaged) (b.course deeds n)) ∧
      (r.phase ≠ .valueStaged → (Bench.Deed.exit k).perform (b.course deeds n) =
        .error (.phaseOrder r.phase .frameRestored) (b.course deeds n)) := by
  refine ⟨?_, fun _ _ _ _ _ h h' => h.unique h', fun _ _ _ h h' => h.unique h',
    fun _ _ h => h.exists_staged hb, ?_⟩
  · intro i j k r hij hr
    obtain ⟨r', hr', hadvances⟩ := Bench.advances_of_le hij hr
    exact ⟨r', hr', Phase.mem_chain_iff.mpr hadvances.rank⟩
  · intro n k r hr
    refine ⟨fun c => ?_, Bench.perform_exit_of_ne hr⟩
    split
    · next hphase => exact ⟨_, _, Bench.perform_stage hr hphase⟩
    · next hphase => exact Bench.perform_stage_of_ne hr hphase

/-- Two records of one frame, on which values are staged in the other order.  The frame is left for
the first record; the second one has to wait for another frame. -/
def crossingDeeds (n : ℕ) : Bench.Deed :=
  [.request (.frame (.enter 11 7)), .request (.frame .active), .stage 1 (.ofValue 9),
    .stage 0 (.ofValue 5), .exit 0, .exit 1, .request (.frame (.enter 12 8)), .exit 1].getD n
    (.request (.store .growth))

theorem crossing_records_live_once :
    Bench.ExitedAt crossingDeeds narrowBench 7 1 ∧ ¬ Bench.ExitedAt crossingDeeds narrowBench 5 1 ∧
      ∃ i c r, i < 7 ∧ Bench.StagedAt crossingDeeds narrowBench i 1 c ∧ c.value = 9 ∧
        (narrowBench.course crossingDeeds 8).records[1]? = some r ∧ r.phase = .dispatched ∧
        (narrowBench.course crossingDeeds 8).world.store.registers.cells[0]? = some 9 ∧
        (Bench.Deed.exit 1).perform (narrowBench.course crossingDeeds 8) =
          .error (.phaseOrder .dispatched .frameRestored) (narrowBench.course crossingDeeds 8) := by
  obtain ⟨-, hstaged, hexited, hexit, hphases⟩ := records_live_once (b := narrowBench) rfl
    crossingDeeds
  have h : Bench.ExitedAt crossingDeeds narrowBench 7 1 := ⟨rfl, _, _, rfl⟩
  have hnine : Bench.StagedAt crossingDeeds narrowBench 2 1 (.ofValue 9) := ⟨rfl, _, _, rfl⟩
  obtain ⟨i, c, r, hi, hc, hr, hphase, hregister⟩ := hexit 7 1 h
  obtain rfl : i = 2 := hstaged i 2 1 _ _ hc hnine
  obtain rfl : c = .ofValue 9 := by
    cases hc.1
    rfl
  refine ⟨h, fun h' => absurd (hexited 5 7 1 h' h) (by decide), 2, _, r, hi, hc, rfl, hr, hphase,
    hregister, ?_⟩
  have hrefused := (hphases 8 1 r hr).2
  rw [hphase] at hrefused
  exact hrefused (by decide)

end WordMachine

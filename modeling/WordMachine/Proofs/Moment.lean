/-
Moments of an execution.

The machine keeps no list of the frames that were entered: all it has is the frame pointer and what
the cells of the stack say.  A `Moment` adds that list to control and machine, so that properties of
calls can speak of the frame that was entered last and of who entered it.  The list decides nothing:
`Moment.Next` is one move of the machine, with the list carried along.

* `LiveFrame`, `Moment`, `Moment.Next`, `Moment.Reaches`;
* `Moment.ofRun` and `Moment.ofCall`, the moments in which `Machine.run` and `Machine.call` start;
* `Moment.reaches_of_pursue`: an execution that comes to an end does so in a moment that it reaches;
* `Moment.after` computes the moments of an execution, and `Moment.forall_reaches` checks a property
  of all of them if the execution ends;
* `Machine.enterFrame_eq_ok`, `Machine.vacate_eq_ok`: what the moves at the two ends of a call do;
* `Moment.Next.memory_eq` and `Moment.Next.fp_eq`: what the other moves leave alone.
-/
import Mathlib.Logic.Relation
import WordMachine.Proofs.Setting

namespace WordMachine

/-- A frame that was entered and not yet left, with what the machine had just before. -/
structure LiveFrame where
  caller : Caller
  /-- The frame pointer of the frame. -/
  fp : Word
  callerSp : Word
  callerFp : Word
  deriving DecidableEq, Repr

/-- What is said of some cells of the live frames is checked along the two lists, and not for every
word that an offset could be. -/
@[reducible]
def LiveFrame.decidableCells (live : List LiveFrame) (offsets : List Word)
    (P : LiveFrame → Word → Prop) [∀ f offset, Decidable (P f offset)] :
    Decidable (∀ f ∈ live, ∀ offset ∈ offsets, P f offset) :=
  @List.decidableBAll _ _ (fun f => List.decidableBAll (P f) offsets) live

/-- Control and machine, with the frames that are live. -/
structure Moment where
  control : Control
  machine : Machine
  /-- The live frames, the one entered last first. -/
  live : List LiveFrame

namespace Moment

/-- The moment in which a run starts. -/
def ofRun (m : Machine) : Moment := ⟨.dispatch m.program.entry, m, []⟩

/-- The moment in which a call of the host starts. -/
def ofCall (callee : Callee) (argument : Word) (m : Machine) : Moment :=
  ⟨.entering callee argument .host, m.beginCall, []⟩

/-- The frames that are live after a move that leaves a machine behind. -/
def liveAfter (a : Moment) (m : Machine) : List LiveFrame :=
  match a.control with
  | .entering _ _ caller =>
    ⟨caller, m.store.fp, a.machine.store.sp, a.machine.store.fp⟩ :: a.live
  | .leaving _ _ => a.live.tail
  | _ => a.live

/-- One move. -/
def Next (a b : Moment) : Prop :=
  Machine.advance a.control a.machine = .ok b.control b.machine ∧ b.live = a.liveAfter b.machine

/-- Moves, one after another. -/
def Reaches : Moment → Moment → Prop := Relation.ReflTransGen Next

theorem Next.move {a b : Moment} (h : Next a b) :
    Machine.Move a.control a.machine b.control b.machine := Machine.move_of_advance h.1

/-- A move of the machine is a move from every moment that has its control and machine. -/
theorem next_of_advance {a : Moment} {c : Control} {m : Machine}
    (h : Machine.advance a.control a.machine = .ok c m) : Next a ⟨c, m, a.liveAfter m⟩ := ⟨h, rfl⟩

/-- No move changes the program, the configuration, the host calls in flight or the shape of the
store. -/
theorem Next.setting_eq {a b : Moment} (h : Next a b) :
    b.machine.setting Store.shape = a.machine.setting Store.shape :=
  (Machine.keeps_setting_advance a.control).of_ok h.1

/-- An execution that leaves the program is at that time in a moment that it reaches. -/
theorem reaches_of_pursue {n : Nat} {a : Moment} {d : Departure} {m : Machine}
    (h : Machine.pursue n a.control a.machine = some (.ok d m)) :
    ∃ live, Reaches a ⟨.gone d, m, live⟩ := by
  induction n generalizing a with
  | zero =>
    obtain ⟨c, m', live⟩ := a
    cases c with
    | gone d' =>
      cases h
      exact ⟨live, .refl⟩
    | _ => cases h
  | succ n ih =>
    cases ha : Machine.advance a.control a.machine with
    | ok c' m' =>
      rw [Machine.pursue_of_ok ha] at h
      obtain ⟨live, hlive⟩ := ih (a := ⟨c', m', a.liveAfter m'⟩) h
      exact ⟨live, hlive.head (next_of_advance ha)⟩
    | error f m' =>
      rw [Machine.pursue_of_error ha] at h
      cases h

/-! ### Computing an execution -/

/-- The moment after a move; a move that fails is not made. -/
def next (a : Moment) : Moment :=
  match Machine.advance a.control a.machine with
  | .ok c m => ⟨c, m, a.liveAfter m⟩
  | .error _ _ => a

/-- The moment after some moves. -/
def after (a : Moment) : Nat → Moment
  | 0 => a
  | n + 1 => (a.after n).next

theorem Next.eq_next {a b : Moment} (h : Next a b) : b = a.next := by
  obtain ⟨c, m, live⟩ := b
  have hmove : Machine.advance a.control a.machine = .ok c m := h.1
  have hlive : live = a.liveAfter m := h.2
  rw [next, hmove, hlive]

/-- A move that changes control is made. -/
theorem next_of_ne {a : Moment} (h : a.next.control ≠ a.control) : Next a a.next := by
  cases hmove : Machine.advance a.control a.machine with
  | ok c m =>
    rw [next, hmove]
    exact next_of_advance hmove
  | error f m =>
    rw [next, hmove] at h
    exact absurd rfl h

theorem reaches_next (a : Moment) : Reaches a a.next := by
  rw [next]
  cases h : Machine.advance a.control a.machine with
  | ok c m => exact .single (next_of_advance h)
  | error f m => exact .refl

theorem reaches_after (a : Moment) (n : Nat) : Reaches a (a.after n) := by
  induction n with
  | zero => exact .refl
  | succ n ih => exact ih.trans (reaches_next _)

theorem exists_after {start a : Moment} (h : Reaches start a) : ∃ n, a = start.after n := by
  induction h with
  | refl => exact ⟨0, rfl⟩
  | tail _ hmove ih =>
    obtain ⟨n, rfl⟩ := ih
    exact ⟨n + 1, hmove.eq_next⟩

theorem next_of_gone {a : Moment} {d : Departure} (h : a.control = .gone d) : a.next = a := by
  obtain ⟨c, m, live⟩ := a
  cases h
  rfl

theorem after_of_gone {start : Moment} {n : Nat} {d : Departure}
    (h : (start.after n).control = .gone d) (k : Nat) : start.after (n + k) = start.after n := by
  induction k with
  | zero => rfl
  | succ k ih =>
    show (start.after (n + k)).next = start.after n
    rw [ih, next_of_gone h]

/-- To check all moments of an execution that ends, it is enough to compute them. -/
theorem forall_reaches {start : Moment} {n : Nat} {d : Departure} {P : Moment → Prop}
    (hgone : (start.after n).control = .gone d) (h : ∀ k < n + 1, P (start.after k)) {a : Moment}
    (ha : Reaches start a) : P a := by
  obtain ⟨k, rfl⟩ := exists_after ha
  by_cases hk : k < n + 1
  · exact h k hk
  -- From the departure on nothing changes any more.
  · obtain ⟨j, rfl⟩ : ∃ j, k = n + j := ⟨k - n, by omega⟩
    rw [after_of_gone hgone]
    exact h n (Nat.lt_succ_self n)

end Moment

/-! ### The two ends of a call -/

namespace Machine

/-- Entering a frame changes the store and is noted in the journal. -/
theorem enterFrame_eq_ok {argument returnAddress : Word} {record : CallRecord} {m m' : Machine} :
    onWorld (World.enterFrame argument returnAddress) m = .ok record m' ↔
      ∃ s, Frame.enter argument returnAddress m.store = .ok record s ∧
        m' = { m with
          store := s
          journal := m.journal.push (.frameEntered s.fp s.sp argument returnAddress) } := by
  rw [onWorld_eq_ok]
  constructor
  · rintro ⟨w, hw, rfl⟩
    obtain ⟨r, _, hstore, hw⟩ := Action.bind_eq_ok.mp hw
    obtain ⟨s, hs, rfl⟩ := Outcome.within_eq_ok.mp hstore
    cases hw
    exact ⟨s, hs, rfl⟩
  · rintro ⟨s, hs, rfl⟩
    refine ⟨_, Action.bind_eq_ok.mpr ⟨record, { m.toWorld with store := s }, ?_, rfl⟩, rfl⟩
    exact Outcome.within_eq_ok.mpr ⟨s, hs, rfl⟩

/-- Leaving a frame changes the store, is noted in the journal, and the call becomes the last
one. -/
theorem leave_eq_ok {record : CallRecord} {address : Word} {m m' : Machine} :
    leave record m = .ok address m' ↔
      ∃ a, Frame.exit ⟨m.store, record⟩ = .ok address a ∧
        m' = { m with
          store := a.store
          journal := m.journal.push (.frameExited a.store.fp a.store.sp a.record.value)
          lastCall := some a.record } := by
  rw [leave, Action.bind_eq_ok]
  constructor
  · rintro ⟨⟨ra, r⟩, m₁, hleave, h⟩
    obtain ⟨w, hw, rfl⟩ := onWorld_eq_ok.mp hleave
    cases h
    cases hexit : Frame.exit ⟨m.store, record⟩ with
    | ok ra' a =>
      rw [World.leaveFrame_of_ok hexit] at hw
      cases hw
      exact ⟨a, rfl, rfl⟩
    | error f a =>
      rw [World.leaveFrame_of_error hexit] at hw
      cases hw
  · rintro ⟨a, ha, rfl⟩
    exact ⟨(address, a.record), _, onWorld_eq_ok.mpr ⟨_, World.leaveFrame_of_ok ha, rfl⟩, rfl⟩

/-- A record on which a completion was staged. -/
def staged (record : CallRecord) (completion : Completion) : CallRecord :=
  { record with value := completion.value, status := completion.status, phase := .valueStaged }

/-- A frame is left with a completion by a record that is in its body. -/
theorem vacate_eq_ok {record : CallRecord} {completion : Completion} {address : Word}
    {m m' : Machine} :
    vacate record completion m = .ok address m' ↔
      record.phase.next? = some .valueStaged ∧
        leave (staged record completion) m = .ok address m' := by
  rw [vacate, CallRecord.stage_apply]
  by_cases hphase : record.phase.next? = some .valueStaged
  · simp [hphase, staged]
  · simp [hphase]

end Machine

/-! ### What the moves in between leave alone -/

/-- Whether a move from here may write memory. -/
def Control.writes : Control → Bool
  | .inside (_ :: _) _ => true
  | .entering _ _ _ => true
  | .serving _ _ _ => true
  | _ => false

/-- Whether a move from here enters or leaves a frame. -/
def Control.crosses : Control → Bool
  | .entering _ _ _ => true
  | .leaving _ _ => true
  | _ => false

namespace Moment

/-- Memory is written by instructions, by entering frames and by the bodies of intrinsics. -/
theorem Next.memory_eq {a b : Moment} (h : Next a b) (hw : ¬ a.control.writes) :
    b.machine.store.memory = a.machine.store.memory := by
  obtain ⟨c, m, live⟩ := a
  obtain ⟨c', m', live'⟩ := b
  cases h.move with
  | execute _ => exact absurd rfl hw
  | enterRoutine _ _ => exact absurd rfl hw
  | enterIntrinsic _ _ => exact absurd rfl hw
  | serve _ => exact absurd rfl hw
  | leave hleave =>
    obtain ⟨a, hexit, rfl⟩ := Machine.leave_eq_ok.mp (Machine.vacate_eq_ok.mp hleave).2
    obtain ⟨callerFp, -, -, -, -, -, -, -, rfl⟩ := Frame.exit_eq_ok.mp hexit
    rfl
  | _ => rfl

/-- Only entering and leaving a frame moves the frame pointer. -/
theorem Next.fp_eq {a b : Moment} (h : Next a b) (hf : ¬ a.control.crosses) :
    b.machine.store.fp = a.machine.store.fp := by
  obtain ⟨c, m, live⟩ := a
  obtain ⟨c', m', live'⟩ := b
  cases h.move with
  | execute hi =>
    have hk := (Machine.keeps_footing_execute _).of_ok hi
    exact congrArg (fun v => v.2.2.2.2) hk
  | serve hbody =>
    have hk := (Machine.keeps_onWorld (Intrinsic.keeps_footing_body _)).of_ok hbody
    exact congrArg (fun v => v.2.2.2.2) hk
  | enterRoutine _ _ => exact absurd rfl hf
  | enterIntrinsic _ _ => exact absurd rfl hf
  | leave _ => exact absurd rfl hf
  | _ => rfl

theorem Next.live_eq {a b : Moment} (h : Next a b) (hf : ¬ a.control.crosses) :
    b.live = a.live := by
  rw [h.2, liveAfter]
  obtain ⟨c, m, live⟩ := a
  cases c with
  | entering _ _ _ => exact absurd rfl hf
  | leaving _ _ => exact absurd rfl hf
  | _ => rfl

end Moment

end WordMachine

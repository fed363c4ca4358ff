/-
How a move can fail.

Faults come from two places.  Operations on the store and on the console have faults of their own:
an index out of bounds, a frame off balance, a stream that fails.  The others are faults of control,
and each of them has its one place: the limit and the label at a dispatch, the callee where a frame
is entered, the word where control goes to a word.

* `Fault.ofControl` tells the two apart, and `Action.Plain` says that an action has no fault of
  control;
* `Machine.Failure` are the rules of failing: the moves that fail, with the fault and the machine
  that they leave;
* `failure_of_advance` and `advance_of_failure`: a move fails if and only if one of the rules says
  so.
-/
import WordMachine.Proofs.Course
import WordMachine.Proofs.Labels

namespace WordMachine

/-- Whether a fault is one of control, and not of the store or the console. -/
def Fault.ofControl : Fault → Bool
  | .unknownLabel _ => true
  | .invalidTarget _ => true
  | .halted => true
  | .stepLimit _ => true
  | .capabilityDenied _ => true
  | _ => false

namespace Action

variable {σ τ α β : Type}

/-- An action has no fault of control. -/
def Plain (x : Action σ α) : Prop := ∀ s f t, x s = .error f t → f.ofControl = false

theorem plain_pure (a : α) : Plain (pure a : Action σ α) := by
  intro s f t h
  cases h

theorem plain_get : Plain (get : Action σ σ) := by
  intro s f t h
  cases h

theorem Plain.bind {x : Action σ α} {g : α → Action σ β} (hx : Plain x) (hg : ∀ a, Plain (g a)) :
    Plain (x >>= g) := by
  intro s f t h
  rcases bind_eq_error.mp h with h | ⟨a, u, -, h⟩
  · exact hx s f t h
  · exact hg a u f t h

/-- An action on a part of a state has the faults that it has on the part. -/
theorem Plain.on {x : Action τ α} (hx : Plain x) {y : Action σ α} {part : σ → τ} {put : σ → τ → σ}
    (h : ∀ s, y s = Outcome.within (put s) (x (part s))) : Plain y := by
  intro s f t hs
  rw [h] at hs
  cases hp : x (part s) with
  | ok a u =>
    rw [hp] at hs
    cases hs
  | error e u =>
    rw [hp] at hs
    cases hs
    exact hx _ _ _ hp

theorem ofExcept_eq_error {x : Except Fault α} {f : Fault} {s t : σ} :
    (ofExcept x : Action σ α) s = .error f t ↔ x = .error f ∧ s = t := by
  cases x <;> simp

end Action

open WordMachine.Action (Plain plain_pure plain_get)

/-! ### The store -/

namespace Store

theorem plain_register (index : Nat) : Plain (register index) := by
  refine Plain.on (x := Registers.get index) ?_ (onRegisters_apply _)
  intro r f t h
  rw [Registers.get] at h
  split at h <;> cases h
  rfl

theorem plain_setRegister (index : Nat) (value : Word) : Plain (setRegister index value) := by
  refine Plain.on (x := Registers.set index value) ?_ (onRegisters_apply _)
  intro r f t h
  rw [Registers.set] at h
  split at h <;> cases h
  rfl

theorem plain_load (address : Word) : Plain (load address) := by
  refine Plain.on (x := Memory.load address) ?_ (onMemory_apply _)
  intro m f t h
  rw [Memory.load] at h
  split at h <;> cases h
  rfl

theorem plain_store (address value : Word) : Plain (store address value) := by
  refine Plain.on (x := Memory.store address value) ?_ (onMemory_apply _)
  intro m f t h
  rw [Memory.store] at h
  split at h <;> cases h
  rfl

theorem plain_readString (address : Word) : Plain (readString address) := by
  refine Plain.on (x := Memory.readString address) ?_ (onMemory_apply _)
  intro m f t h
  rw [Memory.readString] at h
  split at h
  · split at h <;> cases h
    rfl
  · cases h
    rfl

theorem plain_writeString (address : Word) (bytes : Bytes) :
    Plain (writeString address bytes) := by
  refine Plain.on (x := Memory.writeString address bytes) ?_ (onMemory_apply _)
  intro m f t h
  rw [Memory.writeString] at h
  split at h
  · cases h
    rfl
  · split at h <;> cases h
    rfl

theorem plain_reserve (count : UInt64) : Plain (onStack (Stack.reserve count)) := by
  refine Plain.on (x := Stack.reserve count) ?_ (onStack_apply _)
  intro k f t h
  rw [Stack.reserve] at h
  split at h <;> cases h
  rfl

theorem plain_release (count : UInt64) : Plain (onStack (Stack.release count)) := by
  refine Plain.on (x := Stack.release count) ?_ (onStack_apply _)
  intro k f t h
  rw [Stack.release] at h
  split at h <;> cases h
  rfl

theorem plain_frameAddress (offset : Word) : Plain (frameAddress offset) := by
  intro s f t h
  rw [frameAddress] at h
  split at h <;> cases h
  rfl

theorem plain_apply (op : BinaryOp) (a b : Word) :
    Plain (Action.ofExcept (op.apply a b) : Action Store Word) := by
  intro s f t h
  cases hop : op.apply a b with
  | ok v =>
    rw [hop] at h
    cases h
  | error e =>
    rw [hop] at h
    cases h
    -- A zero divisor is the only fault of arithmetic.
    cases op with
    | div | rem =>
      simp only [BinaryOp.apply] at hop
      split at hop <;> cases hop
      rfl
    | _ => cases hop

/-- What programs do with the store has no fault of control. -/
theorem inherited_plain : Inherited fun _ x => Plain x where
  pure := plain_pure
  bind := Plain.bind
  apply := plain_apply
  register := plain_register
  setRegister := plain_setRegister
  load := plain_load
  store := plain_store
  frameAddress := plain_frameAddress
  reserve := plain_reserve 1
  release := plain_release 1

theorem plain_setFp (fp : Word) : Plain (setFp fp) := by
  intro s f t h
  cases h

theorem plain_stageFloat (x : Single) : Plain (stageFloat x) := by
  intro s f t h
  cases h

end Store

namespace Frame

open Activation (onStore_apply)

theorem plain_enter (argument returnAddress : Word) : Plain (enter argument returnAddress) := by
  rw [enter_eq]
  refine plain_get.bind fun s => (Store.plain_reserve 3).bind fun lowest => ?_
  refine (Store.plain_store _ _).bind fun _ => (Store.plain_store _ _).bind fun _ => ?_
  exact (Store.plain_store _ _).bind fun _ => (Store.plain_setFp _).bind fun _ => plain_pure _

theorem plain_ready : Plain ready := by
  intro a f t h
  rw [ready] at h
  split at h
  · cases h
    rfl
  · split at h <;> cases h
    rfl

theorem plain_release (count : UInt64) : Plain (Store.release count) :=
  (Store.plain_release count).bind fun _ => plain_pure _

theorem plain_exit : Plain exit := by
  have hload := Store.inherited_plain.frameLoad
  have hmodify : ∀ g : CallRecord → CallRecord, Plain (Activation.onRecord (modify g)) := by
    intro g a f t h
    cases h
  rw [exit_eq]
  refine plain_ready.bind fun _ => ?_
  refine ((hload _).on (onStore_apply _)).bind fun address => ?_
  refine ((hload _).on (onStore_apply _)).bind fun callerFp => ?_
  refine plain_get.bind fun a => ?_
  refine ((Store.plain_setRegister _ _).on (onStore_apply _)).bind fun _ => ?_
  refine (hmodify _).bind fun _ => ?_
  refine ((Store.plain_setFp _).on (onStore_apply _)).bind fun _ => ?_
  refine ((plain_release 1).on (onStore_apply _)).bind fun _ => ?_
  refine ((plain_release 2).on (onStore_apply _)).bind fun _ => ?_
  exact (hmodify _).bind fun _ => (hmodify _).bind fun _ => plain_pure _

end Frame

/-! ### The console and the intrinsics -/

namespace Console

theorem plain_write (bytes : Bytes) : Plain (write bytes) := by
  refine Plain.on (x := Sink.write bytes) ?_ (onSink_apply _)
  intro k f t h
  rw [Sink.write] at h
  split at h <;> cases h
  rfl

theorem plain_flush : Plain flush := by
  refine Plain.on (x := Sink.flush) ?_ (onSink_apply _)
  intro k f t h
  rw [Sink.flush] at h
  split at h <;> cases h
  rfl

theorem ofControl_of_skipBlanks {pending : Bytes} {coming : List Segment} {f : Fault} {s : Source}
    (h : Source.skipBlanks pending coming = .error f s) : f.ofControl = false := by
  fun_induction Source.skipBlanks pending coming with
  | case1 | case2 | case4 => cases h
  | case3 =>
    cases h
    rfl
  | case5 _ _ b rest coming ih => exact ih h

theorem ofControl_of_takeToken {taken pending : Bytes} {coming : List Segment} {f : Fault}
    {s : Source} (h : Source.takeToken taken pending coming = .error f s) :
    f.ofControl = false := by
  fun_induction Source.takeToken taken pending coming with
  | case1 | case2 | case4 => cases h
  | case3 =>
    cases h
    rfl
  | case5 _ _ _ _ b rest coming ih => exact ih h

theorem plain_nextToken : Plain nextToken := by
  refine Plain.on (x := Source.nextToken) ?_ (onSource_apply _)
  refine Plain.bind (fun _ _ _ h => ofControl_of_skipBlanks h) fun found => ?_
  cases found with
  | true => exact Plain.bind (fun _ _ _ h => ofControl_of_takeToken h) fun _ => plain_pure _
  | false => exact plain_pure _

end Console

namespace World

theorem plain_note (event : Store → Event) : Plain (note event) := by
  intro w f t h
  cases h

theorem plain_enterFrame (argument returnAddress : Word) :
    Plain (enterFrame argument returnAddress) :=
  ((Frame.plain_enter _ _).on (onStore_apply _)).bind fun _ =>
    (plain_note _).bind fun _ => plain_pure _

theorem plain_leaveFrame (record : CallRecord) : Plain (leaveFrame record) := by
  intro w f t h
  cases hexit : Frame.exit ⟨w.store, record⟩ with
  | ok address a =>
    rw [leaveFrame_of_ok hexit] at h
    cases h
  | error e a =>
    rw [leaveFrame_of_error hexit] at h
    cases h
    exact Frame.plain_exit _ _ _ hexit

end World

namespace Intrinsic

open World (onStore_apply onConsole_apply plain_note)

theorem plain_print (bytes : Bytes) : Plain (print bytes) :=
  ((Console.plain_write bytes).on (onConsole_apply _)).bind fun _ => plain_pure _

theorem plain_complete (i : Intrinsic) (result : Except InputFailure Word) :
    Plain (complete i result) := by
  cases result with
  | ok value => exact plain_pure _
  | error e => exact (plain_note _).bind fun _ => plain_pure _

theorem plain_read (i : Intrinsic) {accept : Bytes → Action World (Except InputFailure Word)}
    (h : ∀ token, Plain (accept token)) : Plain (read i accept) := by
  refine Plain.bind (x := readToken) ?_ fun token => ?_
  · refine (Console.plain_flush.on (onConsole_apply _)).bind fun _ => ?_
    refine (Console.plain_nextToken.on (onConsole_apply _)).bind fun token => ?_
    cases token <;> exact plain_pure _
  · cases token with
    | ok token => exact (h token).bind fun result => plain_complete i result
    | error e => exact plain_complete i (.error e)

theorem plain_body (i : Intrinsic) : Plain i.body := by
  refine ((Store.inherited_plain.frameLoad _).on (onStore_apply _)).bind fun argument => ?_
  cases i with
  | printInteger => exact plain_print _
  | printBoolean => exact plain_print _
  | printString =>
    exact ((Store.plain_readString _).on (onStore_apply _)).bind fun _ => plain_print _
  | printFloat =>
    exact ((Store.plain_stageFloat _).on (onStore_apply _)).bind fun _ => plain_print _
  | readInteger => exact plain_read _ fun _ => plain_pure _
  | readBoolean => exact plain_read _ fun _ => plain_pure _
  | readFloat =>
    refine plain_read _ fun token => ?_
    rw [acceptFloat]
    cases Input.float token with
    | ok x => exact ((Store.plain_stageFloat _).on (onStore_apply _)).bind fun _ => plain_pure _
    | error e => exact plain_pure _
  | readString =>
    refine plain_read _ fun token => ?_
    rw [acceptString]
    cases Input.string token with
    | ok bytes =>
      exact ((Store.plain_writeString _ _).on (onStore_apply _)).bind fun _ => plain_pure _
    | error e => exact plain_pure _

end Intrinsic

/-! ### Instructions and frames of a machine -/

namespace Machine

variable {α : Type}

theorem plain_onWorld {x : Action World α} (h : Plain x) : Plain (onWorld x) :=
  h.on (onWorld_apply x)

theorem StoreAlone.plain {x : Action Machine α} (h : StoreAlone (fun _ y => Plain y) x) :
    Plain x := by
  obtain ⟨y, hy, hx⟩ := h
  intro m f t hfail
  rw [hx] at hfail
  exact plain_onWorld ((hy m.statusCode).on (World.onStore_apply _)) m f t hfail

theorem plain_vacate (record : CallRecord) (completion : Completion) :
    Plain (vacate record completion) := by
  rw [vacate, CallRecord.stage_apply]
  by_cases hphase : record.phase.next? = some .valueStaged
  · rw [if_pos hphase]
    refine Plain.bind (plain_onWorld (World.plain_leaveFrame _)) fun _ => ?_
    exact Plain.bind (fun m f t h => by cases h) fun _ => plain_pure _
  · rw [if_neg hphase]
    intro m f t h
    cases h
    rfl

end Machine

/-! ### Labels and words that name no block -/

/-- A word that is not negative is the same number without a sign. -/
theorem Word.toNat_toUInt32 {w : Word} (h : 0 ≤ w.toInt) : (w.toUInt32.toNat : Int) = w.toInt := by
  have hmod := Word.toInt_emod w
  have hlt := Int32.toInt_lt w
  omega

namespace Program

/-- A word is the index of a block. -/
def Indexes (p : Program) (w : Word) : Prop := 0 ≤ w.toInt ∧ w.toInt < p.blocks.size

instance (p : Program) (w : Word) : Decidable (p.Indexes w) :=
  inferInstanceAs (Decidable (_ ∧ _))

theorem resolve_eq_error {p : Program} {w : Word} {f : Fault} :
    p.resolve w = .error f ↔ ¬ p.Indexes w ∧ f = .invalidTarget w := by
  rw [resolve, Indexes]
  split
  · simp [*]
  · simp [*, eq_comm]

/-- A word that stands for a label stands for one that exists. -/
theorem lt_of_resolve {p : Program} {w : Word} {l : Label} (h : p.resolve w = .ok l) :
    l.index.toNat < p.blocks.size := by
  rw [resolve] at h
  split at h
  · rename_i hw
    cases h
    have hnat := Word.toNat_toUInt32 hw.1
    show w.toUInt32.toNat < p.blocks.size
    omega
  · cases h

theorem block_eq_error {p : Program} {l : Label} {f : Fault} :
    p.block l = .error f ↔ p.blocks.size ≤ l.index.toNat ∧ f = .unknownLabel l.index := by
  rw [block]
  cases h : p.blocks[l.index.toNat]? with
  | some b =>
    obtain ⟨hlt, -⟩ := Array.getElem?_eq_some_iff.mp h
    simp
    omega
  | none =>
    have hle := Array.getElem?_eq_none_iff.mp h
    simp [hle, eq_comm]

end Program

namespace Machine

/-! ### The rules of failing -/

/-- The rules of failing: the moves that fail, with the fault and the machine that they leave. -/
inductive Failure : Control → Machine → Fault → Machine → Prop
  | limit {l : Label} {limit : UInt64} {m : Machine} (hlimit : m.config.stepLimit = some limit)
      (hsteps : limit < m.steps + 1) :
      Failure (.dispatch l) m (.stepLimit limit) { m with steps := m.steps + 1 }
  | dispatch {l : Label} {m : Machine}
      (hlimit : ∀ limit, m.config.stepLimit = some limit → m.steps + 1 ≤ limit)
      (hl : m.program.blocks.size ≤ l.index.toNat) :
      Failure (.dispatch l) m (.unknownLabel l.index) (m.dispatched l)
  | jumpRegister {r : Register} {w : Word} {m : Machine}
      (hw : m.store.registers.cells[r.index.toNat]? = some w) (hl : ¬ m.program.Indexes w) :
      Failure (.inside [] (.jumpRegister r)) m (.invalidTarget w) m
  | routine {l : Label} {argument : Word} {caller : Caller} {m : Machine}
      (hl : m.program.blocks.size ≤ l.index.toNat) :
      Failure (.entering (.routine l) argument caller) m (.unknownLabel l.index) m
  | intrinsic {i : Intrinsic} {argument : Word} {caller : Caller} {m : Machine}
      (hdenied : m.config.capabilities.allows i = false) :
      Failure (.entering (.intrinsic i) argument caller) m (.capabilityDenied i) m
  | land {address : Word} {m : Machine} (haddress : ¬ (address = hostReturn ∧ 0 < m.hostCalls))
      (hl : ¬ m.program.Indexes address) : Failure (.landing address) m (.invalidTarget address) m
  /-- An operation on the store or the console fails. -/
  | plain {c : Control} {f : Fault} {m m' : Machine} (hf : f.ofControl = false)
      (h : advance c m = .error f m') : Failure c m f m'

theorem count_eq_error {f : Fault} {m m' : Machine} :
    count m = .error f m' ↔
      ∃ limit, m.config.stepLimit = some limit ∧ limit < m.steps + 1 ∧ f = .stepLimit limit ∧
        m' = { m with steps := m.steps + 1 } := by
  rw [count]
  cases m.config.stepLimit with
  | none => simp
  | some limit =>
    by_cases hl : limit < m.steps + 1
    · simp [hl, eq_comm]
    · simp [hl]

theorem goTo_eq_error {target : Word} {f : Fault} {m m' : Machine} :
    goTo target m = .error f m' ↔
      ¬ m.program.Indexes target ∧ f = .invalidTarget target ∧ m' = m := by
  rw [← and_assoc, ← Program.resolve_eq_error, goTo]
  cases m.program.resolve target with
  | ok l => simp
  | error e => simp [eq_comm]

theorem permit_routine_eq_error {l : Label} {f : Fault} {m m' : Machine} :
    permit (.routine l) m = .error f m' ↔
      m.program.blocks.size ≤ l.index.toNat ∧ f = .unknownLabel l.index ∧ m' = m := by
  rw [← and_assoc, ← Program.block_eq_error, permit]
  cases m.program.block l with
  | ok b => simp [Except.map]
  | error e => simp [Except.map, eq_comm]

theorem permit_intrinsic_eq_error {i : Intrinsic} {f : Fault} {m m' : Machine} :
    permit (.intrinsic i) m = .error f m' ↔
      m.config.capabilities.allows i = false ∧ f = .capabilityDenied i ∧ m' = m := by
  rw [permit, CapabilitySet.check]
  cases m.config.capabilities.allows i with
  | true => simp
  | false => simp [eq_comm]

theorem land_eq_error {address : Word} {f : Fault} {m m' : Machine} :
    land address m = .error f m' ↔
      ¬ (address = hostReturn ∧ 0 < m.hostCalls) ∧ ¬ m.program.Indexes address ∧
        f = .invalidTarget address ∧ m' = m := by
  show (if address = hostReturn ∧ 0 < m.hostCalls then _ else goTo address : Action Machine Flow) m
    = .error f m' ↔ _
  split
  · simp [*]
  · rw [goTo_eq_error]
    simp [*]

/-- Every move that fails is one of the rules. -/
theorem failure_of_advance {c : Control} {f : Fault} {m m' : Machine}
    (h : advance c m = .error f m') : Failure c m f m' := by
  cases hf : f.ofControl with
  | false => exact .plain hf h
  | true =>
    -- What is left is to find the one place in each move where a fault of control comes from.
    have hplain : ∀ {α : Type} {x : Action Machine α} {m m' : Machine}, Plain x →
        x m ≠ .error f m' := by
      intro α x m m' hx herror
      rw [hx m f m' herror] at hf
      cases hf
    have hexecute := fun i => (storeAlone_execute Store.inherited_plain i).plain
    have hfetch := fun r => (storeAlone_fetch Store.inherited_plain r).plain
    cases c with
    | dispatch l =>
      rcases Action.bind_eq_error.mp h with h | ⟨_, _, hcount, h⟩
      · obtain ⟨limit, hlimit, hsteps, rfl, rfl⟩ := count_eq_error.mp h
        exact .limit hlimit hsteps
      · obtain ⟨hlimit, rfl⟩ := count_eq_ok.mp hcount
        rcases Action.bind_eq_error.mp h with h | ⟨_, _, hnote, h⟩
        · cases h
        · cases hnote
          rcases Action.bind_eq_error.mp h with h | ⟨_, _, hget, h⟩
          · cases h
          · cases hget
            rcases Action.bind_eq_error.mp h with h | ⟨_, _, -, h⟩
            · obtain ⟨hblock, rfl⟩ := Action.ofExcept_eq_error.mp h
              obtain ⟨hl, rfl⟩ := Program.block_eq_error.mp hblock
              exact .dispatch hlimit hl
            · cases h
    | inside rest t =>
      cases rest with
      | cons i rest => exact absurd h (hplain ((hexecute i).bind fun _ => plain_pure _))
      | nil =>
        cases t with
        | jump target => cases h
        | branch r ifZero otherwise =>
          exact absurd h (hplain ((hfetch r).bind fun _ => plain_pure _))
        | jumpRegister r =>
          rcases Action.bind_eq_error.mp h with h | ⟨v, _, hfetch, h⟩
          · exact absurd h (hplain (hfetch r))
          · obtain ⟨hv, rfl⟩ := fetch_eq_ok.mp hfetch
            rcases Action.bind_eq_error.mp h with h | ⟨_, _, -, h⟩
            · obtain ⟨hl, rfl, rfl⟩ := goTo_eq_error.mp h
              exact .jumpRegister hv hl
            · cases h
        | call callee r resume =>
          exact absurd h (hplain ((hfetch r).bind fun _ => plain_pure _))
        | ret value =>
          have hrecord := (storeAlone_active Store.inherited_plain).plain
          have hvalue := (storeAlone_returned Store.inherited_plain value).plain
          refine absurd h (hplain (hrecord.bind fun _ => ?_))
          exact hvalue.bind fun _ => plain_pure _
        | halt => cases h
    | entering callee argument caller =>
      rcases Action.bind_eq_error.mp h with h | ⟨_, _, -, h⟩
      · cases callee with
        | routine l =>
          obtain ⟨hl, rfl, rfl⟩ := permit_routine_eq_error.mp h
          exact .routine hl
        | intrinsic i =>
          obtain ⟨hdenied, rfl, rfl⟩ := permit_intrinsic_eq_error.mp h
          exact .intrinsic hdenied
      · refine absurd h (hplain ((plain_onWorld (World.plain_enterFrame _ _)).bind fun _ => ?_))
        cases callee <;> exact plain_pure _
    | serving i argument record =>
      refine absurd h (hplain ((plain_onWorld (World.plain_note _)).bind fun _ => ?_))
      exact (plain_onWorld (Intrinsic.plain_body i)).bind fun _ => plain_pure _
    | leaving record completion =>
      exact absurd h (hplain ((plain_vacate record completion).bind fun _ => plain_pure _))
    | landing address =>
      rcases Action.bind_eq_error.mp h with h | ⟨_, _, -, h⟩
      · obtain ⟨haddress, hl, rfl, rfl⟩ := land_eq_error.mp h
        exact .land haddress hl
      · cases h
    | gone d => cases h

/-- Every rule is a move that fails. -/
theorem advance_of_failure {c : Control} {f : Fault} {m m' : Machine} (h : Failure c m f m') :
    advance c m = .error f m' := by
  cases h with
  | limit hlimit hsteps =>
    exact Action.bind_of_error (count_eq_error.mpr ⟨_, hlimit, hsteps, rfl, rfl⟩)
  | dispatch hlimit hl =>
    refine (Action.bind_of_ok (count_eq_ok.mpr ⟨hlimit, rfl⟩)).trans ?_
    refine (Action.bind_of_ok rfl).trans ((Action.bind_of_ok rfl).trans ?_)
    refine Action.bind_of_error (Action.ofExcept_eq_error.mpr ⟨?_, rfl⟩)
    exact Program.block_eq_error.mpr ⟨hl, rfl⟩
  | jumpRegister hw hl =>
    refine (Action.bind_of_ok (fetch_eq_ok.mpr ⟨hw, rfl⟩)).trans ?_
    exact Action.bind_of_error (goTo_eq_error.mpr ⟨hl, rfl, rfl⟩)
  | routine hl => exact Action.bind_of_error (permit_routine_eq_error.mpr ⟨hl, rfl, rfl⟩)
  | intrinsic hdenied =>
    exact Action.bind_of_error (permit_intrinsic_eq_error.mpr ⟨hdenied, rfl, rfl⟩)
  | land haddress hl =>
    exact Action.bind_of_error (land_eq_error.mpr ⟨haddress, hl, rfl, rfl⟩)
  | plain _ h => exact h

end Machine

end WordMachine

/-
What a failure leaves behind.

An operation that fails is not undone.  Its failure leaves no trace if all that can fail is looked
at before anything is changed, and that depends on the order of its parts.

* `Action.AtomicAt` says that a failure in a state leaves that state; `Keeps.bind_atomicAt` is for
  parts that only look, `AtomicAt.bind_of_ok` for a change after which nothing can fail;
* `Frame.exit_of_overhangs`: a frame of which the topmost cell would lie beyond memory is left only
  halfway, since no one looks at that cell before the stack is found to be too shallow;
* `frames_are_atomic_unless_they_overhang`: this is the only way in which a frame is entered or left
  halfway;
* `only_pops_fail_halfway`: of the instructions only a pop changes anything before it fails.
-/
import WordMachine.Proofs.Bounds

namespace WordMachine

open WordMachine.Action (Keeps keeps_pure keeps_ofExcept)

namespace Action

variable {σ α β : Type} {x : Action σ α} {g : α → Action σ β} {s : σ}

/-- An action that fails in a state leaves that state as it was. -/
def AtomicAt (x : Action σ α) (s : σ) : Prop := ∀ f t, x s = .error f t → t = s

theorem Keeps.atomicAt (hx : Keeps id x) (s : σ) : AtomicAt x s := by
  intro f t h
  have hs := hx s
  rwa [h] at hs

/-- What comes after a part that only looks may still fail, if it is atomic itself. -/
theorem Keeps.bind_atomicAt (hx : Keeps id x) (hg : ∀ a, x s = .ok a s → AtomicAt (g a) s) :
    AtomicAt (x >>= g) s := by
  intro f t h
  rcases bind_eq_error.mp h with hfail | ⟨a, u, ha, hrest⟩
  · exact hx.atomicAt s f t hfail
  · obtain rfl : u = s := hx.of_ok ha
    exact hg a ha f t hrest

/-- What comes after a part that may have changed something must not fail. -/
theorem AtomicAt.bind_of_ok (hx : AtomicAt x s)
    (hg : ∀ a t, x s = .ok a t → ∃ b u, g a t = .ok b u) : AtomicAt (x >>= g) s := by
  intro f t h
  rcases bind_eq_error.mp h with hfail | ⟨a, u, ha, hrest⟩
  · exact hx f t hfail
  · obtain ⟨b, v, hv⟩ := hg a u ha
    cases hv.symm.trans hrest

end Action

open WordMachine.Action (AtomicAt)

/-! ### Operations on the store -/

namespace Store

variable {s : Store}

theorem keeps_id_register (index : Nat) : Keeps id (register index) := by
  intro s
  rw [register, onRegisters_apply, Registers.get]
  cases s.registers.cells[index]? <;> rfl

theorem keeps_id_load (address : Word) : Keeps id (load address) := by
  intro s
  rw [load, onMemory_apply, Memory.load]
  split <;> rfl

theorem keeps_id_frameAddress (offset : Word) : Keeps id (frameAddress offset) := by
  intro s
  rw [frameAddress]
  cases Word.addExact? s.fp offset <;> rfl

theorem keeps_id_frameLoad (offset : Word) : Keeps id (frameLoad offset) :=
  (keeps_id_frameAddress offset).bind keeps_id_load

theorem atomicAt_setRegister (index : Nat) (value : Word) (s : Store) :
    AtomicAt (setRegister index value) s := by
  intro f t h
  rw [setRegister, onRegisters_apply, Registers.set] at h
  split at h
  · cases h
  · cases h
    rfl

theorem atomicAt_store (address value : Word) (s : Store) : AtomicAt (store address value) s := by
  intro f t h
  rw [store, onMemory_apply, Memory.store] at h
  split at h
  · cases h
  · cases h
    rfl

theorem atomicAt_frameStore (offset value : Word) (s : Store) :
    AtomicAt (frameStore offset value) s :=
  (keeps_id_frameAddress offset).bind_atomicAt fun a _ => atomicAt_store a value s

theorem atomicAt_reserve (count : UInt64) (s : Store) :
    AtomicAt (onStack (Stack.reserve count)) s := by
  intro f t h
  rw [onStack_apply, Stack.reserve] at h
  split at h
  · cases h
  · cases h
    rfl

/-- The slot of a push is a cell of memory, since the stack knows how many there are. -/
theorem atomicAt_push (hcapacity : signedSize s.stack.capacity = s.memory.size)
    (hbound : s.memory.size ≤ 2147483647) (value : Word) : AtomicAt (push value) s := by
  refine (atomicAt_reserve 1 s).bind_of_ok fun slot t ht => ?_
  obtain ⟨hfits, rfl, rfl⟩ := reserve_eq_ok.mp ht
  obtain ⟨⟨hlow, hhigh⟩, -⟩ := hfits (by decide)
  rw [hcapacity] at hhigh
  refine ⟨(), _, store_eq_ok.mpr ⟨?_, rfl⟩⟩
  rw [Int32.toInt_ofInt_of_le (by omega) (by omega)]
  exact ⟨hlow, hhigh⟩

theorem onStack_release_of_depth_lt {count : UInt64} (h : s.stack.depth < count.toNat) :
    onStack (Stack.release count) s =
      .error (.outOfBounds .stack (Int64.ofInt s.stack.underground)) s := by
  rw [onStack_apply, Stack.release, if_pos h]
  rfl

theorem load_of_outside {address : Word} (h : ¬ s.memory.Inside address.toInt) :
    load address s = .error (Memory.missing address.toInt) s := by
  rw [load, onMemory_apply, Memory.load, if_neg h]
  rfl

theorem setRegister_of_le {index : Nat} (h : s.registers.size ≤ index) (value : Word) :
    setRegister index value s = .error (.outOfBounds .register (Int64.ofNat index)) s := by
  have hindex : ¬ index < s.registers.cells.size := Nat.not_lt.mpr h
  rw [setRegister, onRegisters_apply, Registers.set, if_neg hindex]
  rfl

/-- The store with one word fewer on the stack. -/
def lessened (s : Store) : Store := { s with stack.sp := s.stack.lowered 1 }

theorem lessened_ne (s : Store) : s.lessened ≠ s := by
  intro h
  have hsp : s.stack.lowered 1 = s.stack.sp := congrArg (fun t => t.stack.sp) h
  rw [Stack.lowered] at hsp
  cases hg : s.stack.growth <;> rw [hg] at hsp <;> grind

/-- A pop moves the stack pointer before it looks at the slot. -/
theorem pop_of_pos (h : 0 < s.depth) : pop s = load (s.stack.lowered 1) s.lessened := by
  have hrelease : onStack (Stack.release 1) s = .ok (s.stack.lowered 1) s.lessened := by
    have hdepth : ¬ s.stack.depth < UInt64.toNat 1 := Nat.not_lt.mpr h
    rw [onStack_apply, Stack.release, if_neg hdepth]
    rfl
  exact Action.bind_of_ok hrelease

theorem pop_of_depth_eq_zero (h : s.depth = 0) :
    pop s = .error (.outOfBounds .stack (Int64.ofInt s.stack.underground)) s := by
  have hdepth : s.stack.depth < UInt64.toNat 1 := Nat.lt_one_iff.mpr h
  exact Action.bind_of_error (onStack_release_of_depth_lt hdepth)

/-- A pop into a register fails halfway if there is a word to pop and no place to take it from or to
put it. -/
theorem atomicAt_pop_iff {index : Nat} :
    AtomicAt (pop >>= fun v => setRegister index v) s ↔
      s.depth = 0 ∨ s.memory.Inside (s.stack.lowered 1).toInt ∧ index < s.registers.size := by
  by_cases hdepth : s.depth = 0
  · refine iff_of_true (fun f t h => ?_) (.inl hdepth)
    cases (Action.bind_of_error (pop_of_depth_eq_zero hdepth)).symm.trans h
    rfl
  have hpop := pop_of_pos (s := s) (Nat.pos_of_ne_zero hdepth)
  by_cases hinside : s.memory.Inside (s.stack.lowered 1).toInt
  · obtain ⟨v, hv⟩ := Memory.exists_read? hinside
    have hload : pop s = .ok v s.lessened := hpop.trans (load_eq_ok.mpr ⟨hv, rfl⟩)
    rw [AtomicAt, Action.bind_of_ok hload]
    by_cases hindex : index < s.registers.size
    · refine iff_of_true (fun f t h => ?_) (.inr ⟨hinside, hindex⟩)
      have hset : setRegister index v s.lessened = _ := setRegister_eq_ok.mpr ⟨hindex, rfl⟩
      cases hset.symm.trans h
    · have hset := setRegister_of_le (s := s.lessened) (Nat.not_lt.mp hindex) v
      refine iff_of_false (fun h => s.lessened_ne (h _ _ hset)) ?_
      rintro (h | ⟨-, h⟩)
      · exact hdepth h
      · exact hindex h
  · have hload := hpop.trans (load_of_outside (s := s.lessened) hinside)
    refine iff_of_false (fun h => s.lessened_ne (h _ _ (Action.bind_of_error hload))) ?_
    rintro (h | ⟨h, -⟩)
    · exact hdepth h
    · exact hinside h

end Store

/-! ### Frames -/

namespace Store

/-- The frame pointer is just beyond memory and the stack, which grows down, has two words on it.
The lower cells of a frame are then these two words, and there is no cell for its argument. -/
def Overhangs (s : Store) : Prop :=
  s.growth = .downward ∧ s.fp.toInt = s.memory.size ∧ s.depth = 2

instance (s : Store) : Decidable s.Overhangs := inferInstanceAs (Decidable (_ ∧ _))

end Store

namespace Frame

open Activation (onStore onRecord)

variable {g : Growth} {size k : Nat} {s : Store} {record : CallRecord}

theorem atomicAt_enter (h : s.Level g size k) (argument returnAddress : Word) :
    AtomicAt (enter argument returnAddress) s := by
  intro f t hfail
  by_cases hroom : k + 3 ≤ size
  · cases (h.enter_of_le hroom argument returnAddress).symm.trans hfail
  · obtain ⟨i, hi⟩ := h.enter_of_full (Nat.lt_of_not_le hroom) argument returnAddress
    cases hi.symm.trans hfail
    rfl

/-- Of a frame that is balanced and whose lower cells are there, the argument can be missing only
beyond the end of memory. -/
theorem three_le_or_overhangs (h : s.Level g size k) (hsp : s.sp = balancedSp s.growth s.fp)
    {ra callerFp : Word} (hret : Store.frameLoad returnAddressOffset s = .ok ra s)
    (hsaved : Store.frameLoad savedFpOffset s = .ok callerFp s) : 3 ≤ k ∨ s.Overhangs := by
  obtain ⟨a, ha, hread, -⟩ := Store.frameLoad_eq_ok.mp hret
  obtain ⟨b, hb, hread', -⟩ := Store.frameLoad_eq_ok.mp hsaved
  obtain ⟨hlow, -⟩ := (Memory.read?_eq_some_iff.mp hread).1
  obtain ⟨-, hhigh⟩ := (Memory.read?_eq_some_iff.mp hread').1
  have hlow' : 2 ≤ s.fp.toInt := by
    have hsum : a.toInt = s.fp.toInt + -2 := Word.toInt_of_ofInt? ha
    omega
  have hhigh' : s.fp.toInt ≤ size := by
    have hsum : b.toInt = s.fp.toInt + -1 := Word.toInt_of_ofInt? hb
    rw [h.memory] at hhigh
    omega
  have hbound := h.bound
  have hfits := h.fits
  have hdepth : s.depth = k := h.depth
  have hgrowth : s.growth = g := h.growth
  have hcell : s.sp = Int32.ofInt (position size k g) := h.sp
  rw [hgrowth] at hsp
  cases g with
  | upward =>
    -- The frame pointer is the stack pointer less one, which is a small number.
    have hfp : s.fp = Int32.ofInt (k - 1) := by
      rw [Int32.ofInt_sub, show Int32.ofInt k = s.sp from hcell.symm, hsp, balancedSp,
        returnAddressOffset, show Int32.ofInt 1 = 1 from rfl]
      grind
    rw [hfp, Int32.toInt_ofInt_of_le (by omega) (by omega)] at hlow'
    exact .inl (by omega)
  | downward =>
    have hint : s.sp = Int32.ofInt (s.fp.toInt - 3) := by
      rw [Int32.ofInt_sub, Int32.ofInt_toInt, hsp, balancedSp, returnAddressOffset,
        show Int32.ofInt 3 = 3 from rfl]
      grind
    have hpos := h.toInt_sp
    have hsp' : s.stack.sp = s.sp := rfl
    rw [hsp', hint, Int32.toInt_ofInt_of_le (by omega) (by omega), position] at hpos
    by_cases hk : 3 ≤ k
    · exact .inl hk
    · exact .inr ⟨hgrowth, by rw [h.memory]; omega, by omega⟩

theorem keeps_id_ready : Keeps id ready := by
  intro a
  rw [ready]
  split
  · rfl
  · split <;> rfl

theorem keeps_id_onStore {α : Type} {x : Action Store α} (h : Keeps id x) :
    Keeps id (onStore x) := by
  intro a
  have ha : Outcome.state (x a.store) = a.store := h a.store
  rw [Activation.onStore_apply, Outcome.state_within, ha]

theorem onStore_of_error {α : Type} {x : Action Store α} {a : Activation} {f : Fault} {t : Store}
    (h : x a.store = .error f t) : onStore x a = .error f { a with store := t } := by
  rw [Activation.onStore_apply, h]
  rfl

theorem atomicAt_onStore {α : Type} {x : Action Store α} {a : Activation}
    (h : AtomicAt x a.store) : AtomicAt (onStore x) a := by
  intro f b hfail
  cases hx : x a.store with
  | ok v t => cases (Activation.onStore_eq_ok.mpr ⟨t, hx, rfl⟩).symm.trans hfail
  | error e t =>
    cases (onStore_of_error hx).symm.trans hfail
    rw [h _ t hx]

/-- A frame that does not overhang is left whole or not at all. -/
theorem atomicAt_exit (h : s.Level g size k)
    (hover : record.phase = .valueStaged → 0 < s.registers.size → ¬ s.Overhangs) :
    AtomicAt exit ⟨s, record⟩ := by
  intro f a hexit
  refine (keeps_id_ready.bind_atomicAt fun _ hready => ?_) f a hexit
  refine (keeps_id_onStore (Store.keeps_id_frameLoad _)).bind_atomicAt fun ra hret => ?_
  refine (keeps_id_onStore (Store.keeps_id_frameLoad _)).bind_atomicAt fun callerFp hsaved => ?_
  refine Action.keeps_get.bind_atomicAt fun b _ => ?_
  intro e t hfail
  rcases Action.bind_eq_error.mp hfail with hset | ⟨_, u, hset, -⟩
  · exact atomicAt_onStore (Store.atomicAt_setRegister _ _ s) e t hset
  -- There is a register for the value, and so nothing is missing at all.
  · obtain ⟨hphase, hsp, -⟩ := ready_eq_ok.mp hready
    obtain ⟨_, hload, -⟩ := Activation.onStore_eq_ok.mp hret
    obtain ⟨-, rfl⟩ := Store.read?_of_frameLoad hload
    obtain ⟨_, hload', -⟩ := Activation.onStore_eq_ok.mp hsaved
    obtain ⟨-, rfl⟩ := Store.read?_of_frameLoad hload'
    obtain ⟨_, hset', -⟩ := Activation.onStore_eq_ok.mp hset
    obtain ⟨hreg, -⟩ := Store.setRegister_eq_ok.mp hset'
    have hthree : 3 ≤ k :=
      (three_le_or_overhangs h hsp hload hload').resolve_right (hover hphase hreg)
    have hdepth : 1 ≤ s.stack.depth := by
      rw [h.depth]
      omega
    have hdepth' : 2 ≤ ({ s.stack with sp := s.stack.lowered 1 } : Stack).depth := by
      rw [h.depth_lowered (by omega)]
      omega
    cases hexit.symm.trans (exit_eq_ok.mpr
      ⟨callerFp, hphase, hsp, hload, hload', hreg, hdepth, hdepth', rfl⟩)

section

variable (h : s.Level g size k) (hover : s.Overhangs)

include h hover

theorem balanced_of_overhangs : s.sp = balancedSp s.growth s.fp := by
  obtain ⟨hgrowth, hfp, hdepth⟩ := hover
  obtain rfl : k = 2 := h.depth.symm.trans hdepth
  obtain rfl : g = .downward := h.growth.symm.trans hgrowth
  have hsp : s.sp = Int32.ofInt (s.fp.toInt - 3) := by
    rw [Store.sp, h.sp, cell, hfp, h.memory]
    congr 1
    simp only [position]
    omega
  rw [hsp, hgrowth, Int32.ofInt_sub, Int32.ofInt_toInt, balancedSp, returnAddressOffset,
    show Int32.ofInt 3 = 3 from rfl]
  grind

/-- The two words on the stack are the cells below the frame pointer. -/
theorem frameLoad_of_overhangs {offset : Word} {j : Nat} (hj : j < 2)
    (hoffset : offset.toInt = -1 - j) : ∃ v, Store.frameLoad offset s = .ok v s := by
  obtain ⟨hgrowth, hfp, hdepth⟩ := hover
  obtain rfl : k = 2 := h.depth.symm.trans hdepth
  obtain rfl : g = .downward := h.growth.symm.trans hgrowth
  have hbound := h.bound
  have hfits := h.fits
  rw [h.memory] at hfp
  have hadd : s.fp + offset = cell .downward size j := by
    rw [← Int32.ofInt_toInt (x := s.fp), ← Int32.ofInt_toInt (x := offset), ← Int32.ofInt_add,
      cell, hfp, hoffset]
    congr 1
    simp only [position]
    omega
  obtain ⟨v, hv⟩ := h.exists_read? (j := j) (by omega)
  refine ⟨v, Store.frameLoad_eq_ok.mpr ⟨s.fp + offset, ?_, hadd ▸ hv, rfl⟩⟩
  exact Word.addExact?_of_mem (by omega) (by omega)

/-- **A frame that overhangs is left only halfway**: the value is in its register, the frame pointer
is that of the caller and one cell was given back when the stack is found to be too shallow. -/
theorem exit_of_overhangs (hreg : valueRegister < s.registers.cells.size)
    (hphase : record.phase = .valueStaged) :
    ∃ callerFp, exit ⟨s, record⟩ = .error (.outOfBounds .stack (Int64.ofInt s.stack.underground))
      ⟨{ s.lessened with
          registers := ⟨s.registers.cells.setIfInBounds valueRegister record.value⟩
          fp := callerFp },
        { record with phase := .frameRestored }⟩ := by
  obtain ⟨ra, hret⟩ : ∃ v, Store.frameLoad returnAddressOffset s = .ok v s :=
    frameLoad_of_overhangs h hover (j := 1) (by decide) (by decide)
  obtain ⟨callerFp, hsaved⟩ : ∃ v, Store.frameLoad savedFpOffset s = .ok v s :=
    frameLoad_of_overhangs h hover (j := 0) (by decide) (by decide)
  have hsp := balanced_of_overhangs h hover
  have hdepth : k = 2 := h.depth.symm.trans hover.2.2
  have hone : UInt64.toNat 1 ≤ s.stack.depth := by
    rw [h.depth, hdepth]
    decide
  -- The check of the second release comes when all else is done.
  have htwo : ({ s.stack with sp := s.stack.lowered 1 } : Stack).depth < UInt64.toNat 2 := by
    rw [h.depth_lowered (by omega), hdepth]
    decide
  let filled : Store :=
    { s with registers := ⟨s.registers.cells.setIfInBounds valueRegister record.value⟩ }
  let restored : CallRecord := { record with phase := .frameRestored }
  have hget : (get : Action Activation Activation) ⟨s, record⟩ = .ok ⟨s, record⟩ ⟨s, record⟩ := rfl
  have hset : Store.setRegister valueRegister record.value s = .ok () filled :=
    Store.setRegister_eq_ok.mpr ⟨hreg, rfl⟩
  have hmove : onRecord (modify ({ · with phase := .frameRestored })) ⟨filled, record⟩ =
      .ok () ⟨filled, restored⟩ := rfl
  have hsetFp : Store.setFp callerFp filled = .ok () { filled with fp := callerFp } := rfl
  have hrelease : Store.release 1 { filled with fp := callerFp } =
      .ok () { filled with fp := callerFp, stack.sp := s.stack.lowered 1 } :=
    Store.release_eq_ok.mpr ⟨hone, rfl⟩
  have hfail : Store.release 2 { filled with fp := callerFp, stack.sp := s.stack.lowered 1 } = _ :=
    Action.bind_of_error (Store.onStack_release_of_depth_lt htwo)
  refine ⟨callerFp, ?_⟩
  rw [exit_eq, Action.bind_of_ok (ready_eq_ok.mpr ⟨hphase, hsp, rfl⟩),
    Action.bind_of_ok (Activation.onStore_eq_ok.mpr ⟨s, hret, rfl⟩),
    Action.bind_of_ok (Activation.onStore_eq_ok.mpr ⟨s, hsaved, rfl⟩), Action.bind_of_ok hget,
    Action.bind_of_ok (Activation.onStore_eq_ok.mpr ⟨filled, hset, rfl⟩), Action.bind_of_ok hmove,
    Action.bind_of_ok (Activation.onStore_eq_ok.mpr ⟨_, hsetFp, rfl⟩),
    Action.bind_of_ok (Activation.onStore_eq_ok.mpr ⟨_, hrelease, rfl⟩),
    Action.bind_of_error (onStore_of_error hfail)]
  rfl

end

end Frame

/-- **Frames are entered and left whole or not at all, unless they overhang.**  Take any store that
was built and then worked on by requests that reserved no counts from `2 ^ 62` on.  If entering a
frame fails, the store is as it was.  If leaving a frame fails, the store and the record are as they
were, except that the record has a value staged, there is a register for it, and the frame that the
frame pointer names overhangs: then leaving it does fail, and not without a trace. -/
theorem frames_are_atomic_unless_they_overhang {config : Config} {console : Console} {b : Bench}
    (hb : Bench.ofConfig config console = .ok b) {requests : List Request}
    (hrequests : ∀ count, .store (.reserve count) ∈ requests → count.toNat < 4611686018427387904)
    {s : Store} (hs : (b.after requests).world.store = s) :
    (∀ argument returnAddress, AtomicAt (Frame.enter argument returnAddress) s) ∧
      ∀ record, AtomicAt Frame.exit ⟨s, record⟩ ↔
        ¬ (record.phase = .valueStaged ∧ 0 < s.registers.size ∧ s.Overhangs) := by
  obtain ⟨k, h⟩ := Bench.exists_level hrequests ⟨0, Bench.level_ofConfig hb⟩
  rw [hs] at h
  refine ⟨Frame.atomicAt_enter h, fun record => ⟨?_, fun hnot => ?_⟩⟩
  · rintro hatomic ⟨hphase, hreg, hover⟩
    obtain ⟨callerFp, hexit⟩ := Frame.exit_of_overhangs h hover hreg hphase
    have hsame := congrArg (fun a => a.record.phase) (hatomic _ _ hexit)
    cases hsame.trans hphase
  · exact Frame.atomicAt_exit h fun hphase hreg hover => hnot ⟨hphase, hreg, hover⟩

/-- A frame is entered and one of its cells given back, and then the frame pointer is moved to where
the two cells that are left are the lower ones of a frame. -/
def overhangingRequests : List Request :=
  [.store (.setFp (-5)), .frame (.enter 11 7), .frame (.stage 0 (.ofValue 5)), .store (.release 1),
    .store (.setFp 4)]

theorem overhanging_frame_is_left_halfway :
    ∃ s record, (narrowBench.after overhangingRequests).world.store = s ∧
      (narrowBench.after overhangingRequests).records = #[record] ∧ s.Overhangs ∧
      ¬ AtomicAt Frame.exit ⟨s, record⟩ ∧
      AtomicAt Frame.exit ⟨s, { record with phase := .inBody }⟩ ∧
      AtomicAt (Frame.enter 1 2) s := by
  have hb : Bench.ofConfig { registers := 1, memory := 4, growth := .downward } {} =
      .ok narrowBench := rfl
  have hrequests : ∀ count : UInt64, .store (.reserve count) ∈ overhangingRequests →
      count.toNat < 4611686018427387904 := by
    intro count hmem
    simp [overhangingRequests] at hmem
  obtain ⟨henter, hexit⟩ := frames_are_atomic_unless_they_overhang hb hrequests rfl
  have hrecords : (narrowBench.after overhangingRequests).records =
      #[{ argument := 11, returnAddress := 7, value := 5, phase := .valueStaged }] := by
    decide +kernel
  have hover : (narrowBench.after overhangingRequests).world.store.Overhangs := by decide +kernel
  have hreg : 0 < (narrowBench.after overhangingRequests).world.store.registers.size := by
    decide +kernel
  refine ⟨_, _, rfl, hrecords, hover, ?_, ?_, henter 1 2⟩
  · rw [hexit, not_not]
    exact ⟨rfl, hreg, hover⟩
  · rw [hexit]
    rintro ⟨hphase, -⟩
    cases hphase

/-! ### Instructions -/

namespace Machine

variable {α : Type} {m : Machine}

theorem keeps_id_onStore {x : Action Store α} (h : Keeps id x) : Keeps id (onStore x) := by
  intro m
  have hm : Outcome.state (x m.store) = m.store := h m.store
  rw [onStore, onWorld_apply, World.onStore_apply, Outcome.state_within, Outcome.state_within, hm]

theorem atomicAt_onStore {x : Action Store α} (h : AtomicAt x m.store) :
    AtomicAt (onStore x) m := by
  intro f m' hfail
  cases hx : x m.store with
  | ok v t => cases (onStore_of_ok hx).symm.trans hfail
  | error e t =>
    cases (onStore_of_error hx).symm.trans hfail
    rw [h _ t hx]

theorem keeps_id_fetch (r : Register) : Keeps id (fetch r) :=
  keeps_id_onStore (Store.keeps_id_register _)

theorem keeps_id_address (operand : Operand) : Keeps id (address operand) := by
  cases operand with
  | absolute a => exact keeps_pure a
  | indirect r => exact keeps_id_fetch r

theorem atomicAt_assign (r : Register) (value : Word) (m : Machine) : AtomicAt (assign r value) m :=
  atomicAt_onStore (Store.atomicAt_setRegister _ _ _)

/-- An instruction other than a pop looks at all that it needs before it changes anything. -/
theorem atomicAt_execute (hcapacity : signedSize m.store.stack.capacity = m.store.memory.size)
    (hbound : m.store.memory.size ≤ 2147483647) {i : Instruction} (hi : ∀ dst, i ≠ .pop dst) :
    AtomicAt (execute i) m := by
  cases i with
  | constant dst value => exact atomicAt_assign dst value m
  | copy dst src => exact (keeps_id_fetch src).bind_atomicAt fun v _ => atomicAt_assign dst v m
  | label dst l => exact atomicAt_assign dst _ m
  | load dst operand =>
    refine (keeps_id_address operand).bind_atomicAt fun a _ => ?_
    refine (keeps_id_onStore (Store.keeps_id_load a)).bind_atomicAt fun v _ => ?_
    exact atomicAt_assign dst v m
  | store operand src =>
    refine (keeps_id_address operand).bind_atomicAt fun a _ => ?_
    refine (keeps_id_fetch src).bind_atomicAt fun v _ => ?_
    exact atomicAt_onStore (Store.atomicAt_store a v m.store)
  | loadFrame dst offset =>
    refine (keeps_id_onStore (Store.keeps_id_frameLoad offset)).bind_atomicAt fun v _ => ?_
    exact atomicAt_assign dst v m
  | storeFrame offset src =>
    refine (keeps_id_fetch src).bind_atomicAt fun v _ => ?_
    exact atomicAt_onStore (Store.atomicAt_frameStore offset v m.store)
  | binary op dst lhs rhs =>
    refine (keeps_id_fetch lhs).bind_atomicAt fun a _ => ?_
    refine (keeps_id_fetch rhs).bind_atomicAt fun b _ => ?_
    exact (keeps_ofExcept _).bind_atomicAt fun v _ => atomicAt_assign dst v m
  | unary op dst src => exact (keeps_id_fetch src).bind_atomicAt fun v _ => atomicAt_assign dst _ m
  | push src =>
    refine (keeps_id_fetch src).bind_atomicAt fun v _ => ?_
    exact atomicAt_onStore (Store.atomicAt_push hcapacity hbound v)
  | pop dst => exact absurd rfl (hi dst)
  | status dst => exact atomicAt_assign dst m.statusCode m

/-- A pop with its register is an operation on the store. -/
theorem execute_pop (dst : Register) :
    execute (.pop dst) =
      onStore (Store.pop >>= fun v => Store.setRegister dst.index.toNat v) :=
  (onStore_bind _ _).symm

theorem forall_onStore_error_iff {x : Action Store α} :
    (∀ f m', onStore x m = .error f m' → m'.store = m.store) ↔ AtomicAt x m.store := by
  constructor
  · intro h f t ht
    exact h f _ (onStore_of_error ht)
  · intro h f m' hfail
    rw [atomicAt_onStore h f m' hfail]

end Machine

/-- In a store of a level the word that a pop finds lies in memory. -/
theorem Store.Level.inside_lowered {g : Growth} {size k : Nat} {s : Store} (h : s.Level g size k)
    (hdepth : s.depth ≠ 0) : s.memory.Inside (s.stack.lowered 1).toInt := by
  have hk : 1 ≤ k := h.depth ▸ Nat.pos_of_ne_zero hdepth
  have hfits := h.fits
  have hlowered : s.stack.lowered 1 = cell g size (k - 1) := h.lowered hk
  rw [hlowered]
  exact h.inside (by omega)

/-- **Only pops fail halfway.**  Wherever a session gets to, whether between requests or in the
midst of a run or a call, an instruction that fails leaves the store as it was, except for a pop
that finds a word on the stack: if the register for the word does not exist, or the word lies
outside of memory, then the stack pointer was moved before the pop fails.  The latter can happen
only when the host has taken the stack pointer out of its range with a reservation of `2 ^ 62` cells
or more. -/
theorem only_pops_fail_halfway {config : Config} {program : Program} {console : Console}
    {loaded : Machine} (hload : Machine.load config program console = .ok loaded) {fuel : Nat}
    {requests : List HostRequest} {answers : List (Except Fault Answer)} {s : Session}
    (hserve : Session.serveAll fuel requests ⟨loaded, #[]⟩ = some (answers, s)) {m : Machine}
    (hm : s.Visits m) :
    (∀ i, (∀ f m', Machine.execute i m = .error f m' → m'.store = m.store) ↔
      ∀ dst, i = .pop dst → m.store.depth = 0 ∨
        m.store.memory.Inside (m.store.stack.lowered 1).toInt ∧
          dst.index.toNat < m.store.registers.size) ∧
    ((∀ count, .direct (.store (.reserve count)) ∈ requests →
        count.toNat < 4611686018427387904) → m.store.depth ≠ 0 →
      m.store.memory.Inside (m.store.stack.lowered 1).toInt) := by
  refine ⟨fun i => ?_, fun hrequests hdepth => ?_⟩
  · by_cases hi : ∃ dst, i = .pop dst
    · obtain ⟨dst, rfl⟩ := hi
      rw [Machine.execute_pop, Machine.forall_onStore_error_iff, Store.atomicAt_pop_iff]
      refine ⟨fun h dst' hdst => ?_, fun h => h dst rfl⟩
      rwa [← Instruction.pop.inj hdst]
    · obtain ⟨built, hbuilt, hshape⟩ :=
        Session.Arises.shape_of_visits ⟨_, _, _, _, hload, hserve⟩ hm
      have hlevel := Store.level_ofConfig hbuilt
      have hmemory : m.store.memory.size = config.memory :=
        (congrArg Shape.memory hshape).trans hlevel.memory
      have hcapacity : signedSize m.store.stack.capacity = m.store.memory.size := by
        rw [hmemory, ← hlevel.capacity]
        exact congrArg (fun shape => signedSize shape.capacity) hshape
      have hatomic : AtomicAt (Machine.execute i) m :=
        Machine.atomicAt_execute hcapacity (hmemory ▸ hlevel.bound) fun dst h => hi ⟨dst, h⟩
      constructor
      · exact fun _ dst h => absurd ⟨dst, h⟩ hi
      · intro _ f m' hfail
        rw [hatomic f m' hfail]
  · obtain ⟨k, hlevel⟩ := Session.exists_level_of_serveAll hload hserve hrequests hm
    exact hlevel.inside_lowered hdepth

/-- A word is pushed and popped into a register that does not exist. -/
def strayPop : Program :=
  ⟨⟨0⟩, #[⟨[.constant ⟨0⟩ 9, .push ⟨0⟩, .pop ⟨5⟩], .halt⟩], []⟩

theorem pop_to_missing_register_loses_a_word :
    ∃ m a, Machine.load { registers := 2, memory := 4 } strayPop {} = .ok m ∧
      Moment.Reaches (.ofRun m) a ∧ a.control = .inside [.pop ⟨5⟩] .halt ∧ a.machine.store.sp = 1 ∧
      (¬ ∀ f m', Machine.execute (.pop ⟨5⟩) a.machine = .error f m' →
        m'.store = a.machine.store) ∧
      ∀ f m', Machine.execute (.push ⟨5⟩) a.machine = .error f m' → m'.store = a.machine.store := by
  have hrun : ((Machine.load { registers := 2, memory := 4 } strayPop {}).toOption.map fun m =>
      let a := (Moment.ofRun m).after 3
      (m.halted, a.control, a.machine.store.sp, a.machine.store.depth,
        a.machine.store.registers.size)) =
      some (false, .inside [.pop ⟨5⟩] .halt, 1, 1, 2) := by decide +kernel
  obtain ⟨m, hm, hend⟩ := Option.map_eq_some_iff.mp hrun
  simp only [Prod.mk.injEq] at hend
  obtain ⟨hhalted, hcontrol, hsp, hdepth, hregisters⟩ := hend
  have hload := Machine.load_of_toOption hm
  have hserve : Session.serveAll 0 [] ⟨m, #[]⟩ = some ([], ⟨m, #[]⟩) := rfl
  have hreach := Moment.reaches_after (.ofRun m) 3
  have hstart : HostRequest.run.start? m = some (.ofRun m) :=
    HostRequest.start?_eq_some.mpr (.inl ⟨rfl, hhalted, rfl⟩)
  obtain ⟨hiff, -⟩ := only_pops_fail_halfway hload hserve (.during hstart hreach)
  refine ⟨m, _, hload, hreach, hcontrol, hsp, ?_, (hiff (.push ⟨5⟩)).mpr fun dst h => nomatch h⟩
  rw [hiff (.pop ⟨5⟩)]
  intro h
  rcases h ⟨5⟩ rfl with h | ⟨-, h⟩
  · omega
  · rw [hregisters] at h
    exact absurd h (by decide)

end WordMachine

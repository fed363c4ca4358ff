/-
The range of the stack pointer.

The stack pointer is in its range if it is between those of the empty and of the full stack.  A
reservation is checked against the slots that are left, and a release against those that are in use,
so neither takes the stack pointer out of its range.  But a reservation reads its count as a signed
number, and it is not checked if that number is negative: then slots that no one has are given back,
and the stack pointer may end up on the wrong side of the place where the stack starts.

* `Stack.Operation` is what can be asked of a stack pointer, `Stack.after` what a list of operations
  leaves, whether they succeed or fail;
* `Stack.housed` puts a stack into a store, so that a stack has a level as a store has one;
  `Stack.exists_level` says that it keeps one, as long as no count is read as negative;
* `Stack.reserve_of_negative`: a count that is read as negative is never refused;
* `stack_pointer_stays_in_range` puts this together.
-/
import WordMachine.Proofs.Script

namespace WordMachine

/-- A 64-bit size from `2 ^ 63` on is read as a negative number. -/
theorem signedSize_of_le {n : UInt64} (h : 9223372036854775808 ≤ n.toNat) :
    signedSize n = n.toNat - 18446744073709551616 := by
  have hint : signedSize n = n.toBitVec.toInt := rfl
  rw [hint, BitVec.toInt_eq_toNat_cond, UInt64.toNat_toBitVec, if_neg (by omega)]
  rfl

namespace Stack

/-! ### Operations -/

/-- What can be asked of a stack pointer. -/
inductive Operation where
  | reserve (count : UInt64)
  | release (count : UInt64)
  /-- Takes the slot for a word. -/
  | pushSlot
  /-- Gives the slot of a word back. -/
  | popSlot
  | clear
  deriving DecidableEq, Repr

/-- Performs an operation and gives the slot that it gives, if it gives one. -/
def Operation.perform : Operation → Action Stack (Option Word)
  | reserve count => return some (← Stack.reserve count)
  | release count => return some (← Stack.release count)
  | pushSlot => return some (← Stack.reserve 1)
  | popSlot => return some (← Stack.release 1)
  | clear => fun s => .ok none s.clear

/-- The stack after some operations, whether they succeeded or failed. -/
def after (s : Stack) (operations : List Operation) : Stack :=
  operations.foldl (fun s operation => Outcome.state (operation.perform s)) s

/-- The stack pointer is between those of the empty and of the full stack. -/
def InRange (s : Stack) : Prop :=
  lowestSp s.growth ≤ s.sp.toInt ∧ s.sp.toInt ≤ lowestSp s.growth + s.capacity.toNat

instance (s : Stack) : Decidable s.InRange := inferInstanceAs (Decidable (_ ∧ _))

theorem reserve_eq_error {count : UInt64} {f : Fault} {s s' : Stack}
    (h : reserve count s = .error f s') : s' = s := by
  rw [reserve] at h
  split at h
  · cases h
  · cases h
    rfl

theorem release_eq_error {count : UInt64} {f : Fault} {s s' : Stack}
    (h : release count s = .error f s') : s' = s := by
  rw [release] at h
  split at h
  · cases h
    rfl
  · cases h

/-- An operation that fails leaves the stack as it was. -/
theorem Operation.eq_of_error {operation : Operation} {f : Fault} {s s' : Stack}
    (h : operation.perform s = .error f s') : s' = s := by
  have hsome : ∀ {x : Action Stack Word},
      (x >>= fun w => pure (some w)) s = .error f s' → x s = .error f s' := by
    intro x hx
    rcases Action.bind_eq_error.mp hx with hx | ⟨w, t, -, hpure⟩
    · exact hx
    · cases hpure
  cases operation with
  | reserve count => exact reserve_eq_error (hsome h)
  | release count => exact release_eq_error (hsome h)
  | pushSlot => exact reserve_eq_error (hsome h)
  | popSlot => exact release_eq_error (hsome h)
  | clear => cases h

/-- To give a slot as a slot that is given changes no state. -/
theorem state_bind_some (x : Action Stack Word) (s : Stack) :
    Outcome.state ((x >>= fun w => pure (some w)) s) = Outcome.state (x s) := by
  cases h : x s with
  | ok w t =>
    rw [Action.bind_of_ok h]
    rfl
  | error f t =>
    rw [Action.bind_of_error h]
    rfl

/-! ### Levels -/

/-- A store around a stack, with as many cells as the stack has slots. -/
def housed (s : Stack) : Store := ⟨.ofSize 0, .ofSize s.capacity.toNat, s, 0, .zero⟩

variable {g : Growth} {size k : Nat} {s : Stack} {count : UInt64}

theorem of_onStack_ok {α : Type} {x : Action Stack α} {a : α} {t : Store}
    (h : Store.onStack x s.housed = .ok a t) : x s = .ok a t.stack := by
  obtain ⟨u, hu, rfl⟩ := Outcome.within_eq_ok.mp h
  exact hu

theorem capacity_of_level (h : s.housed.Level g size k) : s.capacity.toNat = size := by
  rw [← h.memory]
  exact (Memory.size_ofSize _).symm

theorem inRange_of_level (h : s.housed.Level g size k) : s.InRange := by
  have hgrowth : s.growth = g := h.growth
  have hsp : s.sp.toInt = position size k g := h.toInt_sp
  have hfits := h.fits
  rw [InRange, hgrowth, hsp, capacity_of_level h]
  cases g <;> simp only [position, lowestSp] <;> omega

theorem level_ofCapacity (g : Growth) {capacity : UInt64} (h : capacity.toNat ≤ 2147483647) :
    (ofCapacity g capacity).housed.Level g capacity.toNat 0 := by
  have hstart : start g capacity = cell g capacity.toNat 0 := by
    rw [← start_ofNat h, UInt64.ofNat_toNat]
  have hsize : signedSize capacity = capacity.toNat := signedSize_of_lt (by omega)
  exact ⟨rfl, hstart, hsize, hstart, Memory.size_ofSize _, h, Nat.zero_le _⟩

/-- A reservation succeeds if there are enough slots left. -/
theorem reserve_of_le (h : s.housed.Level g size k) (hcount : count.toNat < 9223372036854775808)
    (hroom : k + count.toNat ≤ size) :
    ∃ slot, reserve count s = .ok slot { s with sp := cell g size (k + count.toNat) } := by
  have hreserve : Store.onStack (reserve count) s.housed = _ := h.reserve_of_le hcount hroom
  exact ⟨_, of_onStack_ok hreserve⟩

theorem reserve_of_full (h : s.housed.Level g size k) (hcount : count.toNat < 9223372036854775808)
    (hfull : size < k + count.toNat) : ∃ f, reserve count s = .error f s := by
  obtain ⟨i, hi⟩ : ∃ i, Store.onStack (reserve count) s.housed = .error (.outOfBounds .stack i) _ :=
    h.reserve_of_full hcount hfull
  cases hs : reserve count s with
  | ok w t =>
    rw [Store.onStack_apply, show s.housed.stack = s from rfl, hs] at hi
    cases hi
  | error f t =>
    obtain rfl := reserve_eq_error hs
    exact ⟨f, rfl⟩

/-- A reservation of a count that is not read as negative keeps the stack at some level. -/
theorem level_reserve (h : s.housed.Level g size k)
    (hcount : count.toNat < 9223372036854775808) :
    ∃ j, (Outcome.state (reserve count s)).housed.Level g size j := by
  by_cases hroom : k + count.toNat ≤ size
  · obtain ⟨slot, hreserve⟩ := reserve_of_le h hcount hroom
    rw [hreserve]
    exact ⟨_, h.moved hroom⟩
  · obtain ⟨f, hreserve⟩ := reserve_of_full h hcount (Nat.lt_of_not_le hroom)
    rw [hreserve]
    exact ⟨k, h⟩

/-- A release keeps the stack at some level, whatever its count is. -/
theorem level_release (h : s.housed.Level g size k) (count : UInt64) :
    ∃ j, (Outcome.state (release count s)).housed.Level g size j := by
  have hfits := h.fits
  by_cases hle : count.toNat ≤ k
  · rw [of_onStack_ok (h.onStack_release_of_le hle)]
    exact ⟨_, h.moved (by omega)⟩
  · cases hs : release count s with
    | ok w t =>
      obtain ⟨i, hi⟩ := h.onStack_release_of_lt (Nat.lt_of_not_le hle)
      rw [Store.onStack_apply, show s.housed.stack = s from rfl, hs] at hi
      cases hi
    | error f t =>
      obtain rfl := release_eq_error hs
      exact ⟨k, h⟩

/-- What one operation does to the level. -/
theorem level_perform (h : s.housed.Level g size k) {operation : Operation}
    (hcount : ∀ count, operation = .reserve count → count.toNat < 9223372036854775808) :
    ∃ j, (Outcome.state (operation.perform s)).housed.Level g size j := by
  cases operation with
  | reserve count =>
    rw [Operation.perform, state_bind_some]
    exact level_reserve h (hcount count rfl)
  | release count =>
    rw [Operation.perform, state_bind_some]
    exact level_release h count
  | pushSlot =>
    rw [Operation.perform, state_bind_some]
    exact level_reserve h (by decide)
  | popSlot =>
    rw [Operation.perform, state_bind_some]
    exact level_release h 1
  | clear =>
    exact ⟨0, h.growth, h.initial, h.capacity, h.initial, h.memory, h.bound, Nat.zero_le _⟩

/-- **A stack keeps a level**, as long as no count is read as negative. -/
theorem exists_level {operations : List Operation}
    (hcounts : ∀ count, .reserve count ∈ operations → count.toNat < 9223372036854775808)
    (h : ∃ k, s.housed.Level g size k) : ∃ k, (s.after operations).housed.Level g size k := by
  induction operations generalizing s with
  | nil => exact h
  | cons operation operations ih =>
    obtain ⟨k, hk⟩ := h
    refine ih (fun count hmem => hcounts count (List.mem_cons_of_mem _ hmem)) ?_
    exact level_perform hk fun count hc => hcounts count (hc ▸ List.mem_cons_self)

/-! ### Counts that are read as negative -/

/-- A count that is read as negative is never refused: the stack pointer is moved back. -/
theorem reserve_of_negative (h : 9223372036854775808 ≤ count.toNat) (s : Stack) :
    ∃ slot, reserve count s = .ok slot
      { s with sp := Int32.ofInt (s.beyond (count.toNat - 18446744073709551616)) } := by
  have hlt := count.toNat_lt
  have hfits : s.Fits (signedSize count) := by
    intro hpos
    rw [signedSize_of_le h] at hpos
    omega
  rw [reserve, if_pos hfits, signedSize_of_le h]
  exact ⟨_, rfl⟩

/-- One more slot than there are is given back. -/
theorem exists_escape (h : s.housed.Level g size k) :
    ∃ count slot s', reserve count s = .ok slot s' ∧ ¬ s'.InRange := by
  have hfits := h.fits
  have hbound := h.bound
  have hcount : (UInt64.ofNat (18446744073709551615 - k)).toNat = 18446744073709551615 - k :=
    UInt64.toNat_ofNat_of_lt' (by simp only [UInt64.size]; omega)
  have hnegative : 9223372036854775808 ≤ (UInt64.ofNat (18446744073709551615 - k)).toNat := by
    omega
  obtain ⟨slot, hslot⟩ := reserve_of_negative hnegative s
  refine ⟨_, slot, _, hslot, ?_⟩
  have hgrowth : s.growth = g := h.growth
  have hsp : s.sp.toInt = position size k g := h.toInt_sp
  rw [InRange, hcount, beyond, capacity_of_level h, hgrowth, hsp]
  -- One before the lowest slot or one after the highest, and both are words.
  cases g <;> simp only [position, lowestSp] <;>
    rw [Int32.toInt_ofInt_of_le (by omega) (by omega)] <;> omega

end Stack

/-- **The stack pointer stays in its range, unless a count is read as negative.**  Take a stack of
any capacity that words can address, after any operations of which none reserved `2 ^ 63` slots or
more; releases may have had any counts.  Its stack pointer is in its range, and an operation that
fails leaves it there.  A reservation of fewer than `2 ^ 63` slots succeeds if and only if so many
are left, and then the stack is deeper by so many.  For larger counts this is not so: no such
reservation fails, although there are no such slots, and some reservation takes the stack pointer
out of its range. -/
theorem stack_pointer_stays_in_range {g : Growth} {capacity : UInt64}
    (hcapacity : capacity.toNat ≤ 2147483647) {operations : List Stack.Operation}
    (hcounts : ∀ count, .reserve count ∈ operations → count.toNat < 9223372036854775808)
    {s : Stack} (hs : (Stack.ofCapacity g capacity).after operations = s) :
    s.InRange ∧
    (∀ (operation : Stack.Operation) f s', operation.perform s = .error f s' → s' = s) ∧
    (∀ count : UInt64, s.depth + count.toNat ≤ capacity.toNat →
      ∃ slot s', Stack.reserve count s = .ok slot s') ∧
    (∀ count : UInt64, count.toNat < 9223372036854775808 ↔
      ∀ slot s', Stack.reserve count s = .ok slot s' →
        s.depth + count.toNat ≤ capacity.toNat ∧ s'.depth = s.depth + count.toNat ∧ s'.InRange) ∧
    ∃ count slot s', Stack.reserve count s = .ok slot s' ∧ ¬ s'.InRange := by
  obtain ⟨k, h⟩ := Stack.exists_level hcounts ⟨0, Stack.level_ofCapacity g hcapacity⟩
  rw [hs] at h
  have hdepth : s.depth = k := h.depth
  refine ⟨Stack.inRange_of_level h, fun _ _ _ => Stack.Operation.eq_of_error, fun count hroom => ?_,
    fun count => ⟨fun hcount slot s' hreserve => ?_, fun hlaw => ?_⟩, Stack.exists_escape h⟩
  · rw [hdepth] at hroom
    obtain ⟨slot, hslot⟩ := Stack.reserve_of_le h (by omega) hroom
    exact ⟨slot, _, hslot⟩
  · rw [hdepth]
    by_cases hroom : k + count.toNat ≤ capacity.toNat
    · obtain ⟨_, hslot⟩ := Stack.reserve_of_le h hcount hroom
      cases hslot.symm.trans hreserve
      have hmoved := h.moved hroom
      exact ⟨hroom, hmoved.depth, Stack.inRange_of_level hmoved⟩
    · obtain ⟨f, hf⟩ := Stack.reserve_of_full h hcount (Nat.lt_of_not_le hroom)
      cases hf.symm.trans hreserve
  · refine Nat.lt_of_not_le fun hnegative => ?_
    obtain ⟨slot, hslot⟩ := Stack.reserve_of_negative hnegative s
    obtain ⟨hroom, -⟩ := hlaw _ _ hslot
    omega

/-- A slot is taken and more are given back than there are. -/
def pushThenOverRelease : List Stack.Operation := [.pushSlot, .release 18446744073709551615]

theorem huge_reservation_leaves_range :
    ∃ s, (Stack.ofCapacity .upward 4).after pushThenOverRelease = s ∧ s.sp = 1 ∧ s.InRange ∧
      (∃ slot s', Stack.reserve 3 s = .ok slot s' ∧ s'.depth = 4 ∧ s'.InRange) ∧
      (∀ slot s', Stack.reserve 4 s ≠ .ok slot s') ∧
      ∃ slot s', Stack.reserve 18446744073709551614 s = .ok slot s' ∧ s'.sp = -1 ∧
        ¬ s'.InRange := by
  have hcounts : ∀ count : UInt64, .reserve count ∈ pushThenOverRelease →
      count.toNat < 9223372036854775808 := by
    intro count hmem
    simp [pushThenOverRelease] at hmem
  have hs : (Stack.ofCapacity .upward 4).after pushThenOverRelease = ⟨1, 0, .upward, 4⟩ := by
    decide +kernel
  obtain ⟨hrange, -, hroom, hlaw, -⟩ := stack_pointer_stays_in_range (by decide) hcounts hs
  obtain ⟨slot, s', hreserve⟩ := hroom 3 (by decide)
  obtain ⟨-, hdepth, hrange'⟩ := (hlaw 3).mp (by decide) slot s' hreserve
  refine ⟨_, hs, rfl, hrange, ⟨slot, s', hreserve, hdepth, hrange'⟩, fun slot s' h => ?_, ?_⟩
  · obtain ⟨hfour, -⟩ := (hlaw 4).mp (by decide) slot s' h
    exact absurd hfour (by decide)
  · have hnegative : 9223372036854775808 ≤ UInt64.toNat 18446744073709551614 := by decide
    obtain ⟨slot, hslot⟩ := Stack.reserve_of_negative hnegative ⟨1, 0, .upward, 4⟩
    exact ⟨slot, _, hslot, by decide, by decide⟩

end WordMachine

/-
What the operations on a store do when they succeed.

For each operation there is one lemma that says when it succeeds, with which result and in which
state: `Memory.load_eq_ok`, `Store.frameLoad_eq_ok` and so on.  The later modules use these and do
not open the operations.

* `Memory.read?` is the view of memory in which they are stated: the word at an address, if the
  address names a cell.
* `Frame.enter_eq_ok` and `Frame.exit_eq_ok` describe the two ends of a call.  `Frame.callerSp` is
  the stack pointer of the caller, from the frame pointer: both ends agree on it, which is why a
  call leaves the stack pointer as it was.
-/
import WordMachine.Frame.Protocol

namespace WordMachine

namespace Outcome

variable {σ τ α : Type}

theorem within_eq_ok {f : τ → σ} {o : Outcome τ α} {a : α} {s : σ} :
    within f o = .ok a s ↔ ∃ t, o = .ok a t ∧ f t = s := by
  cases o with
  | ok b t => simp [and_assoc, eq_comm]
  | error e t => simp

end Outcome

namespace Action

variable {σ α : Type}

theorem ofExcept_eq_ok {x : Except Fault α} {a : α} {s t : σ} :
    Action.ofExcept x s = .ok a t ↔ x = .ok a ∧ s = t := by
  cases x with
  | ok b => simp
  | error f => simp

theorem pure_eq_ok {a b : α} {s t : σ} :
    (pure a : Action σ α) s = .ok b t ↔ a = b ∧ s = t := by
  simp

end Action

/-! ### Words -/

namespace Word

/-- Where a sum is exact, it is the sum of words. -/
theorem addExact?_eq_some {a b c : Word} (h : addExact? a b = some c) : c = a + b := by
  rw [addExact?, ofInt?] at h
  split at h
  · rw [← Option.some.inj h, Int32.ofInt_add, Int32.ofInt_toInt, Int32.ofInt_toInt]
  · cases h

theorem addExact?_of_mem {a b : Word} (h : -2147483648 ≤ a.toInt + b.toInt)
    (h' : a.toInt + b.toInt ≤ 2147483647) : addExact? a b = some (a + b) := by
  have hmin : Int32.minValue.toInt = -2147483648 := rfl
  have hmax : Int32.maxValue.toInt = 2147483647 := rfl
  rw [addExact?, ofInt?, hmin, hmax, if_pos ⟨h, h'⟩, Int32.ofInt_add, Int32.ofInt_toInt,
    Int32.ofInt_toInt]

theorem toInt_of_ofInt? {n : Int} {w : Word} (h : ofInt? n = some w) : w.toInt = n := by
  rw [ofInt?] at h
  split at h
  · next hn =>
    rw [← Option.some.inj h]
    exact Int32.toInt_ofInt_of_le hn.1 (Int.lt_of_le_of_lt hn.2 (by decide))
  · cases h

/-- The word of a small 32-bit number is that number. -/
theorem toInt_toInt32 {n : UInt32} (h : n.toNat < 2147483648) : n.toInt32.toInt = n.toNat := by
  have hlt : 2 * n.toBitVec.toNat < 4294967296 := by
    rw [UInt32.toNat_toBitVec]
    omega
  exact BitVec.toInt_eq_toNat_of_lt hlt

/-- A word and the 32-bit number with the same bits differ by a multiple of `2 ^ 32`. -/
theorem toInt_emod (w : Word) : w.toInt % 4294967296 = w.toUInt32.toNat := by
  have hint : w.toInt = _ := BitVec.toInt_eq_toNat_cond w.toBitVec
  have hnat : w.toUInt32.toNat = w.toBitVec.toNat := rfl
  have hlt := w.toBitVec.isLt
  rw [hint, hnat]
  split <;> omega

end Word

/-! ### Registers and memory -/

namespace Registers

theorem get_eq_ok {index : Nat} {v : Word} {r r' : Registers} :
    get index r = .ok v r' ↔ r.cells[index]? = some v ∧ r = r' := by
  rw [get]
  cases r.cells[index]? with
  | some w => simp
  | none => simp

theorem set_eq_ok {index : Nat} {v : Word} {r r' : Registers} :
    set index v r = .ok () r' ↔
      index < r.cells.size ∧ r' = ⟨r.cells.setIfInBounds index v⟩ := by
  rw [set]
  split
  · simp [*, eq_comm]
  · simp [*]

end Registers

namespace Memory

/-- The word at an address, if the address names a cell. -/
def read? (m : Memory) (address : Word) : Option Word :=
  if 0 ≤ address.toInt then m.cells[address.toInt.toNat]? else none

theorem read?_eq_some_iff {m : Memory} {address v : Word} :
    m.read? address = some v ↔
      m.Inside address.toInt ∧ m.cells[address.toInt.toNat]? = some v := by
  rw [read?]
  constructor
  · intro h
    split at h
    · obtain ⟨hlt, -⟩ := Array.getElem?_eq_some_iff.mp h
      refine ⟨⟨by assumption, ?_⟩, h⟩
      rw [size]
      omega
    · cases h
  · rintro ⟨⟨h0, -⟩, h⟩
    rw [if_pos h0, h]

theorem exists_read? {m : Memory} {address : Word} (h : m.Inside address.toInt) :
    ∃ v, m.read? address = some v := by
  have hlt : address.toInt.toNat < m.cells.size := by
    obtain ⟨h0, h1⟩ := h
    rw [size] at h1
    omega
  exact ⟨_, read?_eq_some_iff.mpr ⟨h, Array.getElem?_eq_getElem hlt⟩⟩

theorem load_eq_ok {address v : Word} {m m' : Memory} :
    load address m = .ok v m' ↔ m.read? address = some v ∧ m = m' := by
  rw [read?_eq_some_iff, load]
  by_cases h : m.Inside address.toInt
  · have hlt : address.toInt.toNat < m.cells.size := by
      obtain ⟨h0, h1⟩ := h
      rw [size] at h1
      omega
    rw [if_pos h, Array.getD_eq_getD_getElem?, Array.getElem?_eq_getElem hlt]
    simp [h]
  · simp [h]

theorem store_eq_ok {address v : Word} {m m' : Memory} :
    store address v m = .ok () m' ↔
      m.Inside address.toInt ∧ m' = m.put address.toInt.toNat v := by
  rw [store]
  split
  · simp [*, eq_comm]
  · simp [*]

@[simp]
theorem inside_put {m : Memory} {index : Nat} {v : Word} {address : Int} :
    (m.put index v).Inside address ↔ m.Inside address := by
  rw [Inside, Inside, size_put]

theorem read?_put_self {m : Memory} {address : Word} (v : Word) (h : m.Inside address.toInt) :
    (m.put address.toInt.toNat v).read? address = some v := by
  refine read?_eq_some_iff.mpr ⟨?_, getElem?_put_self v ?_⟩
  · exact inside_put.mpr h
  · obtain ⟨h0, h1⟩ := h
    omega

theorem read?_put_of_ne {m : Memory} {address other : Word} (v : Word)
    (h : m.Inside address.toInt) (hne : other ≠ address) :
    (m.put address.toInt.toNat v).read? other = m.read? other := by
  rw [read?, read?]
  split
  · have hint : address.toInt ≠ other.toInt := fun he => hne (Int32.toInt_inj.mp he).symm
    exact getElem?_put_of_ne v (by have := h.1; omega)
  · rfl

/-- A string and the zero after it leave the cells on both sides alone. -/
theorem read?_putString_of_outside {m : Memory} {address other : Word} {bytes : Bytes}
    (h : 0 ≤ address.toInt)
    (hother : other.toInt < address.toInt ∨ address.toInt + bytes.length < other.toInt) :
    (m.putString address.toInt.toNat bytes).read? other = m.read? other := by
  rw [read?, read?]
  split
  · exact getElem?_putString_of_outside (by omega)
  · rfl

end Memory

/-! ### The store -/

theorem Config.check_eq_ok {c : Config} :
    c.check = .ok () ↔ c.registers ≤ maxCapacity ∧ c.memory ≤ maxCapacity := by
  rw [check]
  by_cases hr : maxCapacity < c.registers
  · simp [hr, Nat.not_le.mpr hr]
  · by_cases hm : maxCapacity < c.memory
    · simp [hr, hm, Nat.not_le.mpr hm]
    · simp [hr, hm, Nat.le_of_not_lt hr, Nat.le_of_not_lt hm]

namespace Store

theorem ofConfig_eq_ok {c : Config} {s : Store} :
    ofConfig c = .ok s ↔
      c.registers ≤ Config.maxCapacity ∧ c.memory ≤ Config.maxCapacity ∧
        s = ⟨.ofSize c.registers, .ofSize c.memory, .ofCapacity c.growth (UInt64.ofNat c.memory),
          Stack.start c.growth (UInt64.ofNat c.memory), .zero⟩ := by
  rw [ofConfig, ← and_assoc, ← Config.check_eq_ok]
  cases hcheck : c.check with
  | error f => simp
  | ok u =>
    simp only [true_and, Except.ok.injEq]
    exact eq_comm

theorem load_eq_ok {address v : Word} {s s' : Store} :
    load address s = .ok v s' ↔ s.memory.read? address = some v ∧ s = s' := by
  rw [load, onMemory_apply, Outcome.within_eq_ok]
  constructor
  · rintro ⟨m, hm, rfl⟩
    obtain ⟨hv, rfl⟩ := Memory.load_eq_ok.mp hm
    exact ⟨hv, rfl⟩
  · rintro ⟨hv, rfl⟩
    exact ⟨s.memory, Memory.load_eq_ok.mpr ⟨hv, rfl⟩, rfl⟩

theorem store_eq_ok {address v : Word} {s s' : Store} :
    store address v s = .ok () s' ↔
      s.memory.Inside address.toInt ∧
        s' = { s with memory := s.memory.put address.toInt.toNat v } := by
  rw [store, onMemory_apply, Outcome.within_eq_ok]
  constructor
  · rintro ⟨m, hm, rfl⟩
    obtain ⟨h, rfl⟩ := Memory.store_eq_ok.mp hm
    exact ⟨h, rfl⟩
  · rintro ⟨h, rfl⟩
    exact ⟨_, Memory.store_eq_ok.mpr ⟨h, rfl⟩, rfl⟩

theorem register_eq_ok {index : Nat} {v : Word} {s s' : Store} :
    register index s = .ok v s' ↔ s.registers.cells[index]? = some v ∧ s = s' := by
  rw [register, onRegisters_apply, Outcome.within_eq_ok]
  constructor
  · rintro ⟨r, hr, rfl⟩
    obtain ⟨hv, rfl⟩ := Registers.get_eq_ok.mp hr
    exact ⟨hv, rfl⟩
  · rintro ⟨hv, rfl⟩
    exact ⟨s.registers, Registers.get_eq_ok.mpr ⟨hv, rfl⟩, rfl⟩

theorem setRegister_eq_ok {index : Nat} {v : Word} {s s' : Store} :
    setRegister index v s = .ok () s' ↔
      index < s.registers.cells.size ∧
        s' = { s with registers := ⟨s.registers.cells.setIfInBounds index v⟩ } := by
  rw [setRegister, onRegisters_apply, Outcome.within_eq_ok]
  constructor
  · rintro ⟨r, hr, rfl⟩
    obtain ⟨h, rfl⟩ := Registers.set_eq_ok.mp hr
    exact ⟨h, rfl⟩
  · rintro ⟨h, rfl⟩
    exact ⟨_, Registers.set_eq_ok.mpr ⟨h, rfl⟩, rfl⟩

theorem frameAddress_eq_ok {offset a : Word} {s s' : Store} :
    frameAddress offset s = .ok a s' ↔ Word.addExact? s.fp offset = some a ∧ s = s' := by
  rw [frameAddress]
  cases Word.addExact? s.fp offset with
  | some b => simp
  | none => simp

theorem frameLoad_eq_ok {offset v : Word} {s s' : Store} :
    frameLoad offset s = .ok v s' ↔
      ∃ a, Word.addExact? s.fp offset = some a ∧ s.memory.read? a = some v ∧ s = s' := by
  rw [frameLoad, Action.bind_eq_ok]
  constructor
  · rintro ⟨a, t, ha, hv⟩
    obtain ⟨hsum, rfl⟩ := frameAddress_eq_ok.mp ha
    exact ⟨a, hsum, load_eq_ok.mp hv⟩
  · rintro ⟨a, ha, hv⟩
    exact ⟨a, s, frameAddress_eq_ok.mpr ⟨ha, rfl⟩, load_eq_ok.mpr hv⟩

/-- A word loaded relative to the frame pointer is the one at the sum. -/
theorem read?_of_frameLoad {offset v : Word} {s s' : Store}
    (h : frameLoad offset s = .ok v s') : s.memory.read? (s.fp + offset) = some v ∧ s = s' := by
  obtain ⟨a, ha, hv, rfl⟩ := frameLoad_eq_ok.mp h
  rw [← Word.addExact?_eq_some ha]
  exact ⟨hv, rfl⟩

theorem reserve_eq_ok {count : UInt64} {w : Word} {s s' : Store} :
    reserve count s = .ok w s' ↔
      s.stack.Fits (signedSize count) ∧ w = Int32.ofInt (s.stack.lowest (signedSize count)) ∧
        s' = { s with stack.sp := Int32.ofInt (s.stack.beyond (signedSize count)) } := by
  rw [reserve, onStack_apply, Stack.reserve]
  split
  · simp [*, eq_comm]
  · simp [*]

theorem release_eq_ok {count : UInt64} {s s' : Store} :
    release count s = .ok () s' ↔
      count.toNat ≤ s.stack.depth ∧
        s' = { s with stack.sp := s.stack.lowered count.toUInt32.toInt32 } := by
  rw [release, Action.bind_eq_ok, onStack_apply, Stack.release]
  split
  · simp
    omega
  · simp [eq_comm]
    omega

end Store

/-! ### The two ends of a call -/

namespace Frame

/-- The stack pointer that the caller had, from the frame pointer of the callee. -/
def callerSp : Growth → Word → Word
  | .upward, fp => fp + returnAddressOffset
  | .downward, fp => fp

/-- The frame pointer of a frame that is entered now. -/
def entryFp (s : Store) : Word := Int32.ofInt (s.stack.lowest 3) + 2

/-- The memory with the three cells of a frame filled. -/
def lay (m : Memory) (fp argument returnAddress callerFp : Word) : Memory :=
  ((m.put fp.toInt.toNat argument).put (fp + returnAddressOffset).toInt.toNat returnAddress).put
    (fp + savedFpOffset).toInt.toNat callerFp

/-- Whether memory has the three cells of a frame. -/
def HasRoom (m : Memory) (fp : Word) : Prop :=
  m.Inside fp.toInt ∧ m.Inside (fp + returnAddressOffset).toInt ∧
    m.Inside (fp + savedFpOffset).toInt

theorem callerSp_entryFp (s : Store) : callerSp s.growth (entryFp s) = s.sp := by
  rw [entryFp, Store.growth, Stack.lowest, Store.sp]
  cases s.stack.growth with
  | upward =>
    simp only [callerSp, returnAddressOffset, Int32.ofInt_toInt]
    grind
  | downward =>
    simp only [callerSp, Int32.ofInt_add, Int32.ofInt_sub, Int32.ofInt_toInt]
    rw [show Int32.ofInt 3 = 3 from rfl, show Int32.ofInt 1 = 1 from rfl]
    grind

/-- Entering a frame leaves the stack pointer where leaving it asks for it. -/
theorem balancedSp_entryFp (s : Store) :
    balancedSp s.growth (entryFp s) = Int32.ofInt (s.stack.beyond 3) := by
  rw [entryFp, Store.growth, Stack.lowest, Stack.beyond]
  cases s.stack.growth with
  | upward =>
    simp only [balancedSp, returnAddressOffset, Int32.ofInt_add, Int32.ofInt_toInt]
    rw [show Int32.ofInt 3 = 3 from rfl]
    grind
  | downward =>
    simp only [balancedSp, returnAddressOffset, Int32.ofInt_add, Int32.ofInt_sub,
      Int32.ofInt_toInt]
    rw [show Int32.ofInt 3 = 3 from rfl, show Int32.ofInt 1 = 1 from rfl]
    grind

/-- Giving the cells of a frame back, one and then two, brings the caller's stack pointer back. -/
theorem lowered_of_balanced {k : Stack} {fp : Word} (h : k.sp = balancedSp k.growth fp) :
    ({ k with sp := k.lowered 1 } : Stack).lowered 2 = callerSp k.growth fp := by
  simp only [Stack.lowered, h]
  cases k.growth with
  | upward =>
    simp only [balancedSp, callerSp, returnAddressOffset]
    grind
  | downward =>
    simp only [balancedSp, callerSp, returnAddressOffset]
    grind

/-- Entering a frame succeeds if the stack has room for it. -/
theorem enter_eq_ok {argument returnAddress : Word} {r : CallRecord} {s s' : Store} :
    enter argument returnAddress s = .ok r s' ↔
      s.stack.Fits 3 ∧ HasRoom s.memory (entryFp s) ∧ r = { argument, returnAddress } ∧
        s' = { s with
          memory := lay s.memory (entryFp s) argument returnAddress s.fp
          stack.sp := balancedSp s.growth (entryFp s)
          fp := entryFp s } := by
  have hsize : signedSize 3 = 3 := rfl
  have hfp : Int32.ofInt (s.stack.lowest 3) + 2 = entryFp s := rfl
  have harg : entryFp s + argumentOffset = entryFp s := by
    simp only [argumentOffset]
    grind
  rw [balancedSp_entryFp, enter_eq]
  constructor
  · intro h
    obtain ⟨_, _, hget, h⟩ := Action.bind_eq_ok.mp h
    cases hget
    obtain ⟨w, s₁, hreserve, h⟩ := Action.bind_eq_ok.mp h
    obtain ⟨hfits, rfl, rfl⟩ := Store.reserve_eq_ok.mp hreserve
    rw [hsize] at hfits h
    rw [hfp, harg] at h
    -- The three stores: argument, return address, frame pointer of the caller.
    obtain ⟨_, s₂, h₁, h⟩ := Action.bind_eq_ok.mp h
    obtain ⟨_, s₃, h₂, h⟩ := Action.bind_eq_ok.mp h
    obtain ⟨_, s₄, h₃, h⟩ := Action.bind_eq_ok.mp h
    obtain ⟨hroom₁, rfl⟩ := Store.store_eq_ok.mp h₁
    obtain ⟨hroom₂, rfl⟩ := Store.store_eq_ok.mp h₂
    obtain ⟨hroom₃, rfl⟩ := Store.store_eq_ok.mp h₃
    cases h
    rw [Memory.inside_put] at hroom₂ hroom₃
    rw [Memory.inside_put] at hroom₃
    exact ⟨hfits, ⟨hroom₁, hroom₂, hroom₃⟩, rfl, rfl⟩
  · rintro ⟨hfits, ⟨hroom₁, hroom₂, hroom₃⟩, rfl, rfl⟩
    refine Action.bind_eq_ok.mpr ⟨s, s, rfl, ?_⟩
    refine Action.bind_eq_ok.mpr ⟨_, _, Store.reserve_eq_ok.mpr ⟨hfits, rfl, rfl⟩, ?_⟩
    rw [hsize, hfp, harg]
    refine Action.bind_eq_ok.mpr ⟨(), _, Store.store_eq_ok.mpr ⟨hroom₁, rfl⟩, ?_⟩
    refine Action.bind_eq_ok.mpr ⟨(), _, Store.store_eq_ok.mpr ⟨?_, rfl⟩, ?_⟩
    · exact Memory.inside_put.mpr hroom₂
    · refine Action.bind_eq_ok.mpr ⟨(), _, Store.store_eq_ok.mpr ⟨?_, rfl⟩, rfl⟩
      exact Memory.inside_put.mpr (Memory.inside_put.mpr hroom₃)

theorem read?_lay {m : Memory} {fp : Word} (argument returnAddress callerFp : Word)
    (h : HasRoom m fp) :
    (lay m fp argument returnAddress callerFp).read? fp = some argument ∧
      (lay m fp argument returnAddress callerFp).read? (fp + returnAddressOffset) =
        some returnAddress ∧
      (lay m fp argument returnAddress callerFp).read? (fp + savedFpOffset) = some callerFp := by
  -- The cells differ even for a frame pointer so low that the sums wrap around.
  have h₁ : fp ≠ fp + returnAddressOffset := by
    simp only [returnAddressOffset]
    grind
  have h₂ : fp ≠ fp + savedFpOffset := by
    simp only [savedFpOffset]
    grind
  have h₃ : fp + returnAddressOffset ≠ fp + savedFpOffset := by
    simp only [savedFpOffset, returnAddressOffset]
    grind
  obtain ⟨harg, hret, hsaved⟩ := h
  have hret' : (m.put fp.toInt.toNat argument).Inside (fp + returnAddressOffset).toInt :=
    Memory.inside_put.mpr hret
  have hsaved' : ((m.put fp.toInt.toNat argument).put (fp + returnAddressOffset).toInt.toNat
      returnAddress).Inside (fp + savedFpOffset).toInt :=
    Memory.inside_put.mpr (Memory.inside_put.mpr hsaved)
  refine ⟨?_, ?_, ?_⟩
  · rw [lay, Memory.read?_put_of_ne _ hsaved' h₂, Memory.read?_put_of_ne _ hret' h₁,
      Memory.read?_put_self _ harg]
  · rw [lay, Memory.read?_put_of_ne _ hsaved' h₃, Memory.read?_put_self _ hret']
  · rw [lay, Memory.read?_put_self _ hsaved']

/-- Cells of no frame are left alone. -/
theorem read?_lay_of_ne {m : Memory} {fp address : Word} (argument returnAddress callerFp : Word)
    (h : HasRoom m fp) (harg : address ≠ fp) (hret : address ≠ fp + returnAddressOffset)
    (hsaved : address ≠ fp + savedFpOffset) :
    (lay m fp argument returnAddress callerFp).read? address = m.read? address := by
  obtain ⟨hinside, hinside', hinside''⟩ := h
  rw [lay, Memory.read?_put_of_ne _
      (Memory.inside_put.mpr (Memory.inside_put.mpr hinside'')) hsaved,
    Memory.read?_put_of_ne _ (Memory.inside_put.mpr hinside') hret,
    Memory.read?_put_of_ne _ hinside harg]

/-- The store after a frame was left with a value. -/
def vacated (s : Store) (callerFp value : Word) : Store :=
  { s with
    registers := ⟨s.registers.cells.setIfInBounds valueRegister value⟩
    stack.sp := callerSp s.growth s.fp
    fp := callerFp }

/-- The stack pointer comes back because the cells of the frame are given back. -/
theorem vacated_eq {s : Store} {callerFp value : Word} (h : s.sp = balancedSp s.growth s.fp) :
    vacated s callerFp value =
      { s with
        registers := ⟨s.registers.cells.setIfInBounds valueRegister value⟩
        stack.sp := ({ s.stack with sp := s.stack.lowered 1 } : Stack).lowered 2
        fp := callerFp } := by
  have hsp : ({ s.stack with sp := s.stack.lowered 1 } : Stack).lowered 2 =
      callerSp s.growth s.fp := lowered_of_balanced h
  rw [hsp, vacated]

theorem Activation.onStore_eq_ok {α : Type} {x : Action Store α} {b : α} {a a' : Activation} :
    onStore x a = .ok b a' ↔ ∃ s, x a.store = .ok b s ∧ a' = { a with store := s } := by
  rw [onStore_apply, Outcome.within_eq_ok]
  simp only [eq_comm]

/-- Leaving a frame succeeds if a value is staged, the stack pointer is just beyond the frame, both
cells can be read, there is a register for the value and the stack is deep enough. -/
theorem exit_eq_ok {ra : Word} {s : Store} {r : CallRecord} {a' : Activation} :
    exit ⟨s, r⟩ = .ok ra a' ↔
      ∃ callerFp, r.phase = .valueStaged ∧ s.sp = balancedSp s.growth s.fp ∧
        Store.frameLoad returnAddressOffset s = .ok ra s ∧
        Store.frameLoad savedFpOffset s = .ok callerFp s ∧
        valueRegister < s.registers.cells.size ∧ 1 ≤ s.stack.depth ∧
        2 ≤ ({ s.stack with sp := s.stack.lowered 1 } : Stack).depth ∧
        a' = ⟨vacated s callerFp r.value,
          { r with returnAddress := ra, phase := .dispatched }⟩ := by
  rw [exit_eq]
  constructor
  · intro h
    obtain ⟨_, _, hready, h⟩ := Action.bind_eq_ok.mp h
    obtain ⟨hphase, hsp, rfl⟩ := ready_eq_ok.mp hready
    obtain ⟨_, _, hret, h⟩ := Action.bind_eq_ok.mp h
    obtain ⟨_, hload, rfl⟩ := Activation.onStore_eq_ok.mp hret
    obtain ⟨-, rfl⟩ := Store.read?_of_frameLoad hload
    obtain ⟨callerFp, _, hsaved, h⟩ := Action.bind_eq_ok.mp h
    obtain ⟨_, hload', rfl⟩ := Activation.onStore_eq_ok.mp hsaved
    obtain ⟨-, rfl⟩ := Store.read?_of_frameLoad hload'
    obtain ⟨_, _, hget, h⟩ := Action.bind_eq_ok.mp h
    cases hget
    obtain ⟨_, _, hset, h⟩ := Action.bind_eq_ok.mp h
    obtain ⟨_, hset', rfl⟩ := Activation.onStore_eq_ok.mp hset
    obtain ⟨hreg, rfl⟩ := Store.setRegister_eq_ok.mp hset'
    obtain ⟨_, _, hphase', h⟩ := Action.bind_eq_ok.mp h
    cases hphase'
    obtain ⟨_, _, hfp, h⟩ := Action.bind_eq_ok.mp h
    cases hfp
    -- Three cells are given back in two steps, of one cell and of two, each with its own check.
    obtain ⟨_, _, hone, h⟩ := Action.bind_eq_ok.mp h
    obtain ⟨_, hone', rfl⟩ := Activation.onStore_eq_ok.mp hone
    obtain ⟨hdepth₁, rfl⟩ := Store.release_eq_ok.mp hone'
    obtain ⟨_, _, htwo, h⟩ := Action.bind_eq_ok.mp h
    obtain ⟨_, htwo', rfl⟩ := Activation.onStore_eq_ok.mp htwo
    obtain ⟨hdepth₂, rfl⟩ := Store.release_eq_ok.mp htwo'
    cases h
    refine ⟨callerFp, hphase, hsp, hload, hload', hreg, hdepth₁, hdepth₂, ?_⟩
    rw [vacated_eq hsp]
    rfl
  · rintro ⟨callerFp, hphase, hsp, hload, hload', hreg, hdepth₁, hdepth₂, rfl⟩
    refine Action.bind_eq_ok.mpr ⟨(), _, ready_eq_ok.mpr ⟨hphase, hsp, rfl⟩, ?_⟩
    refine Action.bind_eq_ok.mpr ⟨ra, _, Activation.onStore_eq_ok.mpr ⟨s, hload, rfl⟩, ?_⟩
    refine Action.bind_eq_ok.mpr ⟨callerFp, _, Activation.onStore_eq_ok.mpr ⟨s, hload', rfl⟩, ?_⟩
    refine Action.bind_eq_ok.mpr ⟨_, _, rfl, ?_⟩
    refine Action.bind_eq_ok.mpr ⟨(), _, Activation.onStore_eq_ok.mpr
      ⟨_, Store.setRegister_eq_ok.mpr ⟨hreg, rfl⟩, rfl⟩, ?_⟩
    refine Action.bind_eq_ok.mpr ⟨(), _, rfl, ?_⟩
    refine Action.bind_eq_ok.mpr ⟨(), _, rfl, ?_⟩
    refine Action.bind_eq_ok.mpr ⟨(), _, Activation.onStore_eq_ok.mpr
      ⟨_, Store.release_eq_ok.mpr ⟨hdepth₁, rfl⟩, rfl⟩, ?_⟩
    refine Action.bind_eq_ok.mpr ⟨(), _, Activation.onStore_eq_ok.mpr
      ⟨_, Store.release_eq_ok.mpr ⟨hdepth₂, rfl⟩, rfl⟩, ?_⟩
    rw [vacated_eq hsp]
    rfl

end Frame

end WordMachine

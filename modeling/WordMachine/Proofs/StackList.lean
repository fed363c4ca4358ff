/-
The stack as a list.

What is on the stack are the words in memory between the place where the stack starts and the stack
pointer.  Seen so the operations on the stack are those on a list that may have as many entries as
memory has cells, and it does not show in which direction the stack grows.

* `Store.words` are the words on the stack, in the order in which they were pushed;
* `Level.push_words`, `Level.pop_words`, `Level.reserve_words` and `Level.release_words` say what
  the operations do to them;
* `Bench.exists_level`: a host that works on a store directly cannot take the stack pointer out of
  its range, unless it reserves counts that are read as negative numbers;
* `stack_refines_list`: so the operations are those of the list in every store that it gets to.
-/
import Mathlib.Data.List.Basic
import WordMachine.Proofs.Direct
import WordMachine.Proofs.Level

namespace WordMachine

open WordMachine.Action (Leads)

/-- The addresses from the place where the stack starts up to the stack pointer, which is not one of
them, in the order in which pushes take them. -/
def Stack.slots (s : Stack) : List Word :=
  match s.growth with
  | .upward =>
    (List.range (s.sp.toInt - s.initial.toInt).toNat).map fun i : Nat =>
      Int32.ofInt (s.initial.toInt + i)
  | .downward =>
    (List.range (s.initial.toInt - s.sp.toInt).toNat).map fun i : Nat =>
      Int32.ofInt (s.initial.toInt - i)

/-- The words on the stack, in the order in which they were pushed. -/
def Store.words (s : Store) : List Word := s.stack.slots.filterMap s.memory.read?

namespace Store.Level

variable {g : Growth} {size k : Nat} {s : Store}

/-! ### The words on the stack -/

theorem slots_eq (h : Level g size k s) : s.stack.slots = (List.range k).map (cell g size) := by
  have hinitial : s.stack.initial.toInt = position size 0 g := by
    rw [h.initial, toInt_cell h.bound (Nat.zero_le _)]
  rw [Stack.slots, h.growth, hinitial, h.toInt_sp]
  cases g with
  | upward =>
    have hk : (position size k .upward - position size 0 .upward).toNat = k := by
      simp only [position]
      omega
    rw [hk]
    refine List.map_congr_left fun i _ => congrArg Int32.ofInt ?_
    simp only [position]
    omega
  | downward =>
    have hk : (position size 0 .downward - position size k .downward).toNat = k := by
      simp only [position]
      omega
    rw [hk]
    refine List.map_congr_left fun i _ => congrArg Int32.ofInt ?_
    simp only [position]
    omega

theorem words_eq (h : Level g size k s) :
    s.words = (List.range k).filterMap fun j => s.memory.read? (cell g size j) := by
  rw [words, h.slots_eq, List.filterMap_map]
  rfl

theorem length_words (h : Level g size k s) : s.words.length = k := by
  have hsome : ∀ j ∈ List.range k, (s.memory.read? (cell g size j)).isSome := by
    intro j hj
    have hlt := List.mem_range.mp hj
    obtain ⟨v, hv⟩ := h.exists_read? (Nat.lt_of_lt_of_le hlt h.fits)
    rw [hv]
    rfl
  rw [h.words_eq, List.filterMap_length_eq_length.mpr hsome, List.length_range]

/-- What lies above a level is a part of the list of its own. -/
theorem words_append (h : Level g size k s) {j n : Nat} (hk : k = j + n) :
    s.words = ({ s with stack.sp := cell g size j } : Store).words ++
      ((List.range n).map fun i => cell g size (j + i)).filterMap s.memory.read? := by
  have hj : j ≤ size := Nat.le_trans (by omega) h.fits
  rw [h.words_eq, (h.moved hj).words_eq, hk, List.range_add, List.filterMap_append,
    List.filterMap_map, List.filterMap_map]
  rfl

/-! ### Operations on the list -/

theorem push_words (h : Level g size k s) (v : Word) :
    if s.words.length = size then ∃ i, Store.push v s = .error (.outOfBounds .stack i) s
    else ∃ s', Store.push v s = .ok () s' ∧ s'.words = s.words ++ [v] ∧
      s' = { s with stack.sp := s'.sp, memory := s.memory.put s.sp.toInt.toNat v } := by
  have hfits := h.fits
  rw [h.length_words]
  split
  · exact h.push_of_full (by omega) v
  · have hroom : k < size := by omega
    refine ⟨_, h.push_of_lt hroom v, ?_, ?_⟩
    · rw [(h.pushed hroom v).words_eq, h.words_eq, List.range_succ, List.filterMap_append]
      congr 1
      · refine List.filterMap_congr fun j hj => ?_
        have hlt := List.mem_range.mp hj
        exact h.read?_put hroom (by omega) (by omega) v
      · exact List.filterMap_cons_some (Memory.read?_put_self v (h.inside hroom))
    · have hsp : s.sp = cell g size k := h.sp
      rw [hsp]
      rfl

theorem pop_words (h : Level g size k s) :
    if s.words = [] then ∃ i, Store.pop s = .error (.outOfBounds .stack i) s
    else ∃ v s', Store.pop s = .ok v s' ∧ s.words = s'.words ++ [v] ∧
      s' = { s with stack.sp := s'.sp } := by
  have hlength := h.length_words
  cases k with
  | zero =>
    rw [if_pos (List.length_eq_zero_iff.mp hlength)]
    exact h.pop_of_zero
  | succ k =>
    obtain ⟨v, hv⟩ := h.exists_read? (j := k) h.fits
    rw [if_neg (List.ne_nil_of_length_pos (by omega))]
    refine ⟨v, _, h.pop_of_read? hv, ?_, rfl⟩
    rw [h.words_append rfl]
    simp [hv]

theorem reserve_words (h : Level g size k s) {count : UInt64}
    (hcount : count.toNat < 9223372036854775808) :
    if size < s.words.length + count.toNat then
      ∃ i, Store.reserve count s = .error (.outOfBounds .stack i) s
    else ∃ low s' claimed, Store.reserve count s = .ok low s' ∧
      s'.stack.slots = s.stack.slots ++ claimed ∧ claimed.length = count.toNat ∧
      s'.words = s.words ++ claimed.filterMap s.memory.read? ∧
      (∀ a ∈ claimed, (s.memory.read? a).isSome) ∧
      (0 < count.toNat → low ∈ claimed ∧ ∀ a ∈ claimed, low.toInt ≤ a.toInt) ∧
      s' = { s with stack.sp := s'.sp } := by
  rw [h.length_words]
  split
  · next hfull => exact h.reserve_of_full hcount hfull
  · have hroom : k + count.toNat ≤ size := by omega
    have hmoved := h.moved hroom
    refine ⟨_, _, (List.range count.toNat).map fun i => cell g size (k + i),
      h.reserve_of_le hcount hroom, ?_, ?_, ?_, ?_, ?_, rfl⟩
    · rw [hmoved.slots_eq, h.slots_eq, List.range_add, List.map_append, List.map_map]
      rfl
    · rw [List.length_map, List.length_range]
    · rw [hmoved.words_append rfl, ← h.sp]
    · intro a ha
      obtain ⟨i, hi, rfl⟩ := List.mem_map.mp ha
      have hlt := List.mem_range.mp hi
      obtain ⟨v, hv⟩ := h.exists_read? (j := k + i) (by omega)
      rw [hv]
      rfl
    · intro hpos
      have hbounds := lowestCell_mem k hpos g
      rw [h.lowest hpos]
      constructor
      · refine List.mem_map.mpr ⟨lowestCell k count.toNat g - k, List.mem_range.mpr (by omega), ?_⟩
        rw [Nat.add_sub_cancel' hbounds.1]
      · intro a ha
        obtain ⟨i, hi, rfl⟩ := List.mem_map.mp ha
        have hlt := List.mem_range.mp hi
        rw [toInt_cell h.bound (by omega), toInt_cell h.bound (by omega)]
        cases g <;> simp only [position, lowestCell] <;> omega

theorem release_words (h : Level g size k s) (count : UInt64) :
    if s.words.length < count.toNat then
      ∃ i, Store.release count s = .error (.outOfBounds .stack i) s
    else ∃ s', Store.release count s = .ok () s' ∧
      s'.words = s.words.take (s.words.length - count.toNat) ∧
      s' = { s with stack.sp := s'.sp } := by
  rw [h.length_words]
  split
  · next hlt => exact h.release_of_lt hlt
  · have hle : count.toNat ≤ k := by omega
    have hfits := h.fits
    have hlevel := h.moved (j := k - count.toNat) (by omega)
    refine ⟨_, h.release_of_le hle, ?_, rfl⟩
    rw [h.words_append (j := k - count.toNat) (n := count.toNat) (by omega),
      List.take_left' hlevel.length_words]

end Store.Level

/-! ### Stores that a host gets to -/

namespace Store

/-- If the stack pointer of the first store is in its range, so is that of the second. -/
def StaysLevel (g : Growth) (size : Nat) (s t : Store) : Prop :=
  (∃ k, Level g size k s) → ∃ k, Level g size k t

variable {g : Growth} {size : Nat}

instance : Std.Refl (StaysLevel g size) := ⟨fun _ h => h⟩

instance : IsTrans Store (StaysLevel g size) := ⟨fun _ _ _ h h' hs => h' (h hs)⟩

theorem follows_staysLevel :
    Follows (StaysLevel g size) fun count => count.toNat < 4611686018427387904 where
  aground := by
    rintro s t hstack hshape ⟨k, h⟩
    exact ⟨k, h.congr hstack (congrArg Shape.memory hshape)⟩
  reserve := by
    rintro count hcount s ⟨k, h⟩
    by_cases hroom : k + count.toNat ≤ size
    · have hreserve : onStack (Stack.reserve count) s = _ := h.reserve_of_le (by omega) hroom
      rw [hreserve]
      exact ⟨_, h.moved hroom⟩
    · obtain ⟨i, hi⟩ : ∃ i, onStack (Stack.reserve count) s = .error (.outOfBounds .stack i) s :=
        h.reserve_of_full (by omega) (by omega)
      rw [hi]
      exact ⟨k, h⟩
  release := by
    rintro count s ⟨k, h⟩
    have hfits := h.fits
    by_cases hle : count.toNat ≤ k
    · rw [h.onStack_release_of_le hle]
      exact ⟨_, h.moved (by omega)⟩
    · obtain ⟨i, hi⟩ := h.onStack_release_of_lt (Nat.lt_of_not_le hle)
      rw [hi]
      exact ⟨k, h⟩
  reset := by
    rintro s ⟨k, h⟩
    exact ⟨0, h.growth, h.initial, h.capacity, h.initial, (Memory.size_ofSize _).trans h.memory,
      h.bound, Nat.zero_le _⟩

end Store

namespace Bench

theorem level_ofConfig {config : Config} {console : Console} {b : Bench}
    (h : ofConfig config console = .ok b) :
    b.world.store.Level config.growth config.memory 0 := by
  rw [ofConfig] at h
  cases hstore : Store.ofConfig config with
  | error f =>
    rw [hstore] at h
    cases h
  | ok store =>
    rw [hstore] at h
    cases h
    exact Store.level_ofConfig hstore

/-- The bench after some requests, whether they succeeded or failed. -/
def after (requests : List Request) (b : Bench) : Bench :=
  requests.foldl (fun b request => Outcome.state (serve request b)) b

/-- **The stack pointer stays in its range**, if no count is reserved that is too large. -/
theorem exists_level {g : Growth} {size : Nat} {requests : List Request}
    (hrequests : ∀ count, .store (.reserve count) ∈ requests → count.toNat < 4611686018427387904)
    {b : Bench} (hb : ∃ k, b.world.store.Level g size k) :
    ∃ k, (b.after requests).world.store.Level g size k := by
  induction requests generalizing b with
  | nil => exact hb
  | cons request requests ih =>
    refine ih (fun count hmem => hrequests count (List.mem_cons_of_mem _ hmem)) ?_
    refine leads_follows Store.follows_staysLevel (by decide) (by decide) (fun count hc => ?_) b hb
    exact hrequests count (hc ▸ List.mem_cons_self)

end Bench

/-- **The stack is a bounded list.**  Take any store that was built and then worked on by requests
that reserved no counts from `2 ^ 62` on.  The words on its stack are as many as the stack is deep.
A push fails if there are as many as memory has cells, and appends its word otherwise; a pop fails
if there are none, and takes the last one off otherwise; a reservation appends the cells that it
claims if there are enough left, and gives the lowest of their addresses; a release drops the last
words if there are enough.  What fails changes nothing, and what succeeds changes nothing but the
stack pointer and the cell that is pushed. -/
theorem stack_refines_list {config : Config} {console : Console} {b : Bench}
    (hb : Bench.ofConfig config console = .ok b) {requests : List Request}
    (hrequests : ∀ count, .store (.reserve count) ∈ requests → count.toNat < 4611686018427387904)
    {s : Store} (hs : (b.after requests).world.store = s) :
    s.words.length = s.depth ∧
    (∀ v,
      if s.words.length = config.memory then ∃ i, Store.push v s = .error (.outOfBounds .stack i) s
      else ∃ s', Store.push v s = .ok () s' ∧ s'.words = s.words ++ [v] ∧
        s' = { s with stack.sp := s'.sp, memory := s.memory.put s.sp.toInt.toNat v }) ∧
    (if s.words = [] then ∃ i, Store.pop s = .error (.outOfBounds .stack i) s
      else ∃ v s', Store.pop s = .ok v s' ∧ s.words = s'.words ++ [v] ∧
        s' = { s with stack.sp := s'.sp }) ∧
    (∀ count : UInt64, count.toNat < 4611686018427387904 →
      if config.memory < s.words.length + count.toNat then
        ∃ i, Store.reserve count s = .error (.outOfBounds .stack i) s
      else ∃ low s' claimed, Store.reserve count s = .ok low s' ∧
        s'.stack.slots = s.stack.slots ++ claimed ∧ claimed.length = count.toNat ∧
        s'.words = s.words ++ claimed.filterMap s.memory.read? ∧
        (∀ a ∈ claimed, (s.memory.read? a).isSome) ∧
        (0 < count.toNat → low ∈ claimed ∧ ∀ a ∈ claimed, low.toInt ≤ a.toInt) ∧
        s' = { s with stack.sp := s'.sp }) ∧
    ∀ count : UInt64,
      if s.words.length < count.toNat then
        ∃ i, Store.release count s = .error (.outOfBounds .stack i) s
      else ∃ s', Store.release count s = .ok () s' ∧
        s'.words = s.words.take (s.words.length - count.toNat) ∧
        s' = { s with stack.sp := s'.sp } := by
  obtain ⟨k, h⟩ := Bench.exists_level hrequests ⟨0, Bench.level_ofConfig hb⟩
  rw [hs] at h
  refine ⟨h.length_words.trans h.depth.symm, h.push_words, h.pop_words, fun count hcount => ?_,
    h.release_words⟩
  exact h.reserve_words (Nat.lt_trans hcount (by decide))

/-- A bench with four cells of memory, on which the stack grows down. -/
def narrowBench : Bench where
  world := { store := ⟨.ofSize 1, .ofSize 4, .ofCapacity .downward 4, 3, .zero⟩, console := {} }

/-- Two pushes, a release of more than is there, and a reservation. -/
def narrowRequests : List Request :=
  [.store (.push 5), .store (.push 6), .store (.release 9), .store (.reserve 1)]

theorem narrowBench_refines_list :
    ∃ s, (narrowBench.after narrowRequests).world.store = s ∧ s.words = [5, 6, 0] ∧
      (∃ s', Store.push 7 s = .ok () s' ∧ s'.words = [5, 6, 0, 7]) ∧
      (∃ s', Store.pop s = .ok 0 s' ∧ s'.words = [5, 6]) ∧
      (∃ i, Store.reserve 2 s = .error (.outOfBounds .stack i) s) ∧
      ∃ s', Store.release 2 s = .ok () s' ∧ s'.words = [5] := by
  have hwords : (narrowBench.after narrowRequests).world.store.words = [5, 6, 0] := by
    decide +kernel
  have hb : Bench.ofConfig { registers := 1, memory := 4, growth := .downward } {} =
      .ok narrowBench := rfl
  have hrequests : ∀ count : UInt64, .store (.reserve count) ∈ narrowRequests →
      count.toNat < 4611686018427387904 := by
    intro count hmem
    simp [narrowRequests] at hmem
    subst hmem
    decide
  obtain ⟨-, hpush, hpop, hreserve, hrelease⟩ := stack_refines_list hb hrequests rfl
  refine ⟨_, rfl, hwords, ?_⟩
  have hpush' := hpush 7
  have hreserve' := hreserve 2 (by decide)
  have hrelease' := hrelease 2
  generalize (narrowBench.after narrowRequests).world.store = s at *
  rw [hwords] at hpush' hreserve' hrelease'
  rw [if_neg (by rw [hwords]; decide)] at hpop
  obtain ⟨s₁, hs₁, hw₁, -⟩ := hpush'
  obtain ⟨v, s₂, hs₂, hw₂, -⟩ := hpop
  obtain ⟨i, hi⟩ := hreserve'
  obtain ⟨s₃, hs₃, hw₃, -⟩ := hrelease'
  obtain ⟨hw, hv⟩ : s₂.words = [5, 6] ∧ [v] = [0] :=
    List.append_inj' (hw₂.symm.trans (hwords.trans rfl)) rfl
  obtain rfl : v = 0 := List.singleton_inj.mp hv
  exact ⟨⟨s₁, hs₁, hw₁⟩, ⟨s₂, hs₂, hw⟩, ⟨i, hi⟩, s₃, hs₃, hw₃⟩

end WordMachine

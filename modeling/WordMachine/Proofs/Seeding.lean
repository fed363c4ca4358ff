/-
Filling memory from the data of a program.

Data cells may name memory cells in any order, more than once, and outside of memory.  They are put
into memory one after another, so the last one that names a cell decides, and the first one that
names no cell stops it all.  The cells of a string are no exception: a later cell may fall into the
string, and the zero at the end of a later string may cut an earlier one.

* `DataCell.last?`, `DataCell.settled`: the cell that decides, and the value that it leaves;
* `DataCell.map_ofString`: where the cells of a string are;
* `Memory.fill` puts cells that are all within memory, `Memory.getElem?_fill` says with what result;
* `Machine.seed_of_within`, `Machine.seed_of_stray`: the two ways in which filling ends;
* `Memory.fill_ofString`: the cells of a string do what writing the string does;
* `memory_is_seeded`: what a machine is loaded with.
-/
import WordMachine.Proofs.Exactness
import WordMachine.Proofs.Renewal
import WordMachine.Proofs.Strings

namespace WordMachine

theorem Word.toInt_succ {a : Word} (h : a.toInt < 2147483647) : (a + 1).toInt = a.toInt + 1 := by
  have hone : (1 : Word).toInt = 1 := rfl
  have hmin := Int32.le_toInt a
  rw [Word.toInt_add_of_mem (by omega) (by omega), hone]

/-! ### Data cells -/

namespace DataCell

/-- The data cell is for the memory cell at an index. -/
def Names (c : DataCell) (index : Nat) : Prop := c.address.toInt = index

instance (c : DataCell) (index : Nat) : Decidable (c.Names index) :=
  inferInstanceAs (Decidable (_ = _))

/-- The data cell is for one of the first cells of memory. -/
def Within (c : DataCell) (size : Nat) : Prop := 0 ≤ c.address.toInt ∧ c.address.toInt < size

instance (c : DataCell) (size : Nat) : Decidable (c.Within size) :=
  inferInstanceAs (Decidable (_ ∧ _))

/-- The last data cell that is for a memory cell, if there is one. -/
def last? (cells : List DataCell) (index : Nat) : Option DataCell :=
  cells.reverse.find? (·.Names index)

/-- What a memory cell holds in the end, if it was zero before. -/
def settled (cells : List DataCell) (index : Nat) : Word :=
  ((last? cells index).map value).getD 0

variable {c : DataCell} {cells : List DataCell} {index : Nat}

theorem last?_cons :
    last? (c :: cells) index = (last? cells index).or (if c.Names index then some c else none) := by
  rw [last?, List.reverse_cons, List.find?_append, List.find?_singleton]
  simp only [decide_eq_true_eq]
  rfl

theorem last?_eq_none (h : ∀ c ∈ cells, ¬ c.Names index) : last? cells index = none := by
  rw [last?, List.find?_eq_none]
  intro c hc
  simpa using h c (List.mem_reverse.mp hc)

/-- The cells of a string lie next to each other: first its characters, then a zero. -/
theorem map_ofString {a : Word} {bytes : Bytes} (hend : a.toInt + bytes.length ≤ 2147483647) :
    (ofString a bytes).map (fun c => (c.address.toInt, c.value)) =
      (bytes.map Word.ofByte ++ [0]).mapIdx fun k v => (a.toInt + (k : Int), v) := by
  induction bytes generalizing a with
  | nil => simp [ofString]
  | cons b bytes ih =>
    rw [List.length_cons] at hend
    have hnext := Word.toInt_succ (a := a) (by omega)
    -- The addresses of the rest are counted from the next cell on.
    have hrest : (fun (k : Nat) (v : Word) => ((a + 1).toInt + (k : Int), v)) =
        fun k v => (a.toInt + ((k + 1 : Nat) : Int), v) := by
      funext k v
      rw [hnext, Int.natCast_add, Int.add_assoc, Int.add_comm 1]
      rfl
    rw [ofString, List.map_cons, ih (by omega), List.map_cons, List.cons_append, List.mapIdx_cons,
      hrest]
    simp

theorem exists_mem_ofString {a : Word} {bytes : Bytes} {k : Nat} (hk : k ≤ bytes.length)
    (hend : a.toInt + bytes.length ≤ 2147483647) :
    ∃ c ∈ ofString a bytes, c.address.toInt = a.toInt + k := by
  have hlength : k < (bytes.map Word.ofByte ++ [0]).length := by
    simp
    omega
  have hmem : (a.toInt + (k : Int), (bytes.map Word.ofByte ++ [0])[k]) ∈
      (ofString a bytes).map fun c => (c.address.toInt, c.value) := by
    rw [map_ofString hend, List.mem_mapIdx]
    exact ⟨k, hlength, rfl⟩
  obtain ⟨c, hc, hpair⟩ := List.mem_map.mp hmem
  exact ⟨c, hc, congrArg Prod.fst hpair⟩

end DataCell

/-! ### Memory -/

namespace Memory

open DataCell (last? ofString)

variable {m : Memory} {c : DataCell} {cells : List DataCell} {index : Nat}

/-- Puts data cells into memory, one after another. -/
def fill (m : Memory) (cells : List DataCell) : Memory :=
  cells.foldl (fun m c => m.put c.address.toInt.toNat c.value) m

theorem fill_cons : m.fill (c :: cells) = (m.put c.address.toInt.toNat c.value).fill cells := rfl

theorem fill_append (cells cells' : List DataCell) :
    m.fill (cells ++ cells') = (m.fill cells).fill cells' :=
  List.foldl_append

@[simp]
theorem size_fill (m : Memory) (cells : List DataCell) : (m.fill cells).size = m.size := by
  induction cells generalizing m with
  | nil => rfl
  | cons c cells ih => rw [fill_cons, ih, size_put]

/-- **The last data cell that names a memory cell decides what it holds.** -/
theorem getElem?_fill (h : ∀ c ∈ cells, c.Within m.size) (index : Nat) :
    (m.fill cells).cells[index]? = ((last? cells index).map DataCell.value).or m.cells[index]? := by
  induction cells generalizing m with
  | nil => rfl
  | cons c cells ih =>
    obtain ⟨hc, hcells⟩ := List.forall_mem_cons.mp h
    rw [fill_cons, ih (by simpa using hcells), DataCell.last?_cons]
    -- The cells that follow have precedence over this one.
    cases last? cells index with
    | some d => rfl
    | none =>
      obtain ⟨hlow, hhigh⟩ := hc
      by_cases hnames : c.Names index
      · have hindex : c.address.toInt.toNat = index := by
          rw [DataCell.Names] at hnames
          omega
        rw [if_pos hnames, hindex]
        exact getElem?_put_self _ (by omega)
      · have hindex : c.address.toInt.toNat ≠ index := by
          rw [DataCell.Names] at hnames
          omega
        rw [if_neg hnames]
        exact getElem?_put_of_ne _ hindex

/-- The cells of a string do what writing the string does. -/
theorem fill_ofString {a : Word} {bytes : Bytes} (ha : 0 ≤ a.toInt)
    (hend : a.toInt + bytes.length ≤ 2147483647) :
    m.fill (ofString a bytes) = m.putString a.toInt.toNat bytes := by
  induction bytes generalizing m a with
  | nil => rfl
  | cons b bytes ih =>
    rw [List.length_cons] at hend
    have hnext := Word.toInt_succ (a := a) (by omega)
    have hindex : (a + 1).toInt.toNat = a.toInt.toNat + 1 := by omega
    rw [ofString, fill_cons, ih (by omega) (by omega), hindex]
    rfl

/-- **A string among data cells can be read**, if no later cell falls into it. -/
theorem spells_fill {before later : List DataCell} {a : Word} {bytes : Bytes}
    (h : ∀ c ∈ before ++ ofString a bytes ++ later, c.Within m.size)
    (hend : a.toInt + bytes.length ≤ 2147483647)
    (hlater : ∀ c ∈ later, c.address.toInt < a.toInt ∨ a.toInt + bytes.length < c.address.toInt) :
    m.Inside a.toInt ∧
      (m.fill (before ++ ofString a bytes ++ later)).Spells a.toInt.toNat bytes := by
  have hcells : ∀ k ≤ bytes.length, 0 ≤ a.toInt + k ∧ a.toInt + k < m.size := by
    intro k hk
    obtain ⟨c, hc, haddress⟩ := DataCell.exists_mem_ofString hk hend
    rw [← haddress]
    exact h c (List.mem_append_left _ (List.mem_append_right _ hc))
  have hfirst := hcells 0 (Nat.zero_le _)
  have hlast := hcells bytes.length (Nat.le_refl _)
  refine ⟨by simpa [Inside] using hfirst, ?_⟩
  rw [fill_append, fill_append, fill_ofString (by simpa using hfirst.1) hend]
  have hroom : a.toInt.toNat + bytes.length < (m.fill before).size := by
    rw [size_fill]
    omega
  -- What was there before is overwritten, and what comes later stays away.
  refine (spells_putString hroom).congr fun j hle hge => ?_
  rw [getElem?_fill (by simpa using fun c hc => h c (List.mem_append_right _ hc)),
    DataCell.last?_eq_none]
  · rfl
  · intro c hc hnames
    have hapart := hlater c hc
    rw [DataCell.Names] at hnames
    omega

end Memory

/-! ### Machines -/

namespace Machine

variable {cells : List DataCell} {s : Store}

theorem store_of_within {c : DataCell} (h : c.Within s.memory.size) :
    Store.store c.address c.value s =
      .ok () { s with memory := s.memory.put c.address.toInt.toNat c.value } :=
  Store.store_eq_ok.mpr ⟨h, rfl⟩

/-- If every data cell is within memory, memory is filled and nothing else is changed. -/
theorem seed_of_within (h : ∀ c ∈ cells, c.Within s.memory.size) :
    seed cells s = .ok () { s with memory := s.memory.fill cells } := by
  induction cells generalizing s with
  | nil => rfl
  | cons c cells ih =>
    obtain ⟨hc, hcells⟩ := List.forall_mem_cons.mp h
    rw [seed, Action.bind_of_ok (store_of_within hc), ih (by simpa using hcells)]
    rfl

/-- If not, filling stops at the first data cell that is not. -/
theorem seed_of_stray {before : List DataCell} {c : DataCell}
    (h : ∀ c ∈ before, c.Within s.memory.size) (hc : ¬ c.Within s.memory.size)
    (later : List DataCell) :
    ∃ s', seed (before ++ c :: later) s = .error (Memory.missing c.address.toInt) s' := by
  induction before generalizing s with
  | nil =>
    have hinside : ¬ s.memory.Inside c.address.toInt := hc
    have hstore : Store.store c.address c.value s = .error (Memory.missing c.address.toInt) s := by
      rw [Store.store, Store.onMemory_apply, Memory.store, if_neg hinside]
      rfl
    exact ⟨s, Action.bind_of_error hstore⟩
  | cons d before ih =>
    obtain ⟨hd, hbefore⟩ := List.forall_mem_cons.mp h
    rw [List.cons_append, seed, Action.bind_of_ok (store_of_within hd)]
    exact ih (by simpa using hbefore) (by simpa using hc)

/-- Either all data cells are within memory, or there is a first one that is not. -/
theorem within_or_stray (cells : List DataCell) (size : Nat) :
    (∀ c ∈ cells, c.Within size) ∨ ∃ before c later, cells = before ++ c :: later ∧
      (∀ c ∈ before, c.Within size) ∧ ¬ c.Within size := by
  cases hfind : cells.find? (fun c => !decide (c.Within size)) with
  | none =>
    rw [List.find?_eq_none] at hfind
    exact .inl (by simpa using hfind)
  | some c =>
    obtain ⟨hc, before, later, rfl, hbefore⟩ := List.find?_eq_some_iff_append.mp hfind
    exact .inr ⟨before, c, later, rfl, by simpa using hbefore, by simpa using hc⟩

variable {config : Config} {program : Program} {console : Console} {m : Machine}

/-- A fresh store, with its memory filled. -/
def seededStore (config : Config) (cells : List DataCell) : Store where
  registers := .ofSize config.registers
  memory := (Memory.ofSize config.memory).fill cells
  stack := .ofCapacity config.growth (UInt64.ofNat config.memory)
  fp := Stack.start config.growth (UInt64.ofNat config.memory)
  scratch := .zero

theorem ofConfig_of_check (h : config.check = .ok ()) :
    Store.ofConfig config = .ok (seededStore config []) := by
  obtain ⟨hregisters, hmemory⟩ := Config.check_eq_ok.mp h
  exact Store.ofConfig_eq_ok.mpr ⟨hregisters, hmemory, rfl⟩

/-- A machine is loaded if all data cells are within memory, and only then. -/
theorem load_ok_iff (hconfig : config.check = .ok ()) :
    load config program console = .ok m ↔ (∀ c ∈ program.data, c.Within config.memory) ∧
      m = { store := seededStore config program.data, console, config, program } := by
  have hbuilt := ofConfig_of_check hconfig
  have hsize : (seededStore config []).memory.size = config.memory := by simp [seededStore]
  constructor
  · intro h
    obtain ⟨built, store, hbuilt', hseed, rfl⟩ := load_iff.mp h
    obtain rfl : seededStore config [] = built := Except.ok.inj (hbuilt.symm.trans hbuilt')
    rcases within_or_stray program.data config.memory with
      hwithin | ⟨before, c, later, hdata, h, hc⟩
    · rw [seed_of_within (hsize ▸ hwithin)] at hseed
      cases hseed
      exact ⟨hwithin, rfl⟩
    · obtain ⟨s', hstray⟩ := seed_of_stray (hsize ▸ h) (hsize ▸ hc) later
      rw [hdata] at hseed
      cases hstray.symm.trans hseed
  · rintro ⟨h, rfl⟩
    exact load_iff.mpr ⟨_, _, hbuilt, seed_of_within (hsize ▸ h), rfl⟩

/-- It is not loaded if some data cell is not; the first such cell is the fault. -/
theorem load_error_iff (hconfig : config.check = .ok ()) {f : Fault} :
    load config program console = .error f ↔ ∃ before c later,
      program.data = before ++ c :: later ∧ (∀ c' ∈ before, c'.Within config.memory) ∧
      ¬ c.Within config.memory ∧ f = Memory.missing c.address.toInt := by
  have hsize : (seededStore config []).memory.size = config.memory := by simp [seededStore]
  have hstray : ∀ {before c later}, program.data = before ++ c :: later →
      (∀ c' ∈ before, c'.Within config.memory) → ¬ c.Within config.memory →
      load config program console = .error (Memory.missing c.address.toInt) := by
    intro before c later hdata h hc
    obtain ⟨s', hseed⟩ := seed_of_stray (hsize ▸ h) (hsize ▸ hc) later
    rw [load, ofConfig_of_check hconfig, hdata]
    simp only [hseed]
  constructor
  · intro h
    rcases within_or_stray program.data config.memory with
      hwithin | ⟨before, c, later, hdata, hw, hc⟩
    · cases h.symm.trans ((load_ok_iff hconfig).mpr ⟨hwithin, rfl⟩)
    · refine ⟨before, c, later, hdata, hw, hc, ?_⟩
      exact Except.error.inj (h.symm.trans (hstray hdata hw hc))
  · rintro ⟨before, c, later, hdata, h, hc, rfl⟩
    exact hstray hdata h hc

/-- What is in a memory cell after loading. -/
theorem getElem?_seededStore (h : ∀ c ∈ cells, c.Within config.memory) (i : Nat) :
    (seededStore config cells).memory.cells[i]? =
      if i < config.memory then some (DataCell.settled cells i) else none := by
  have hzero : (Memory.ofSize config.memory).cells[i]? =
      if i < config.memory then some 0 else none := Array.getElem?_replicate
  rw [seededStore, Memory.getElem?_fill (by simpa using h), hzero, DataCell.settled]
  cases hlast : DataCell.last? cells i with
  | none => rfl
  | some c =>
    have hnames : c.Names i := by simpa using List.find?_some hlast
    have hc := h c (List.mem_reverse.mp (List.mem_of_find?_eq_some hlast))
    have hi : i < config.memory := by
      rw [DataCell.Names] at hnames
      rw [DataCell.Within] at hc
      omega
    rw [if_pos hi, if_pos hi]
    rfl

/-- A string that is not touched by later data cells is read after loading. -/
theorem readString_seededStore {before later : List DataCell} {a : Word} {bytes : Bytes}
    (h : ∀ c ∈ before ++ DataCell.ofString a bytes ++ later, c.Within config.memory)
    (hzero : 0 ∉ bytes) (hend : a.toInt + bytes.length ≤ 2147483647)
    (hlater : ∀ c ∈ later, c.address.toInt < a.toInt ∨ a.toInt + bytes.length < c.address.toInt) :
    Store.readString a (seededStore config (before ++ DataCell.ofString a bytes ++ later)) =
      .ok bytes (seededStore config (before ++ DataCell.ofString a bytes ++ later)) := by
  rw [← Memory.size_ofSize config.memory] at h
  obtain ⟨hinside, hspells⟩ := Memory.spells_fill h hend hlater
  have hread := Memory.readString_of_spells hspells (by simpa [Memory.Inside] using hinside) hzero
  rw [Store.readString, Store.onMemory_apply]
  exact Outcome.within_eq_ok.mpr ⟨_, hread, rfl⟩

end Machine

/-- **Memory is seeded from data cells in order.**  Take any accepted configuration, any program and
any console.  A machine is loaded if and only if all data cells are within memory; otherwise loading
fails at the first one that is not.  The data cells of a string are its characters from its address
on, and a zero.  A loaded machine has in every memory cell the value of the last
data cell for it, or zero if there is none; its registers are all zero and its two pointers are
where they start.  In particular, a string without zeros that was added to the program can be read
at its address, whatever was added before it, unless a cell that was added later falls into it. -/
theorem memory_is_seeded {config : Config} (hconfig : config.check = .ok ()) (program : Program)
    (console : Console) :
    ((∃ m, Machine.load config program console = .ok m) ↔
      ∀ c ∈ program.data, c.Within config.memory) ∧
    (∀ f, Machine.load config program console = .error f ↔ ∃ before c later,
      program.data = before ++ c :: later ∧ (∀ c' ∈ before, c'.Within config.memory) ∧
      ¬ c.Within config.memory ∧ f = .outOfBounds .memory (Int64.ofInt c.address.toInt)) ∧
    (∀ (p : Program) (a : Word) (bytes : Bytes), a.toInt + bytes.length ≤ 2147483647 →
      ∃ cells, (p.withString a bytes).data = p.data ++ cells ∧
        cells.map (fun c => (c.address.toInt, c.value)) =
          (bytes.map Word.ofByte ++ [0]).mapIdx fun k v => (a.toInt + (k : Int), v)) ∧
    ∀ m, Machine.load config program console = .ok m →
      (∀ i, m.store.memory.cells[i]? =
        if i < config.memory then some (DataCell.settled program.data i) else none) ∧
      (∀ i, m.store.registers.cells[i]? = if i < config.registers then some 0 else none) ∧
      m.store.sp.toInt = position config.memory 0 config.growth ∧ m.store.fp = m.store.sp ∧
      ∀ (p : Program) (a : Word) (bytes : Bytes) (later : List DataCell),
        program = (p.withString a bytes).withData later → 0 ∉ bytes →
        a.toInt + bytes.length ≤ 2147483647 →
        (∀ c ∈ later, c.address.toInt < a.toInt ∨ a.toInt + bytes.length < c.address.toInt) →
        Store.readString a m.store = .ok bytes m.store := by
  refine ⟨?_, fun f => Machine.load_error_iff hconfig, fun p a bytes hend => ?_, fun m hm => ?_⟩
  · simp only [Machine.load_ok_iff hconfig, exists_and_left, exists_eq, and_true]
  · exact ⟨_, rfl, DataCell.map_ofString hend⟩
  · obtain ⟨hwithin, rfl⟩ := (Machine.load_ok_iff hconfig).mp hm
    obtain ⟨-, hmemory⟩ := Config.check_eq_ok.mp hconfig
    refine ⟨Machine.getElem?_seededStore hwithin, fun i => Array.getElem?_replicate, ?_, rfl, ?_⟩
    · show (Stack.start config.growth (UInt64.ofNat config.memory)).toInt = _
      rw [start_ofNat hmemory, toInt_cell hmemory (Nat.zero_le _)]
    · rintro p a bytes later rfl hzero hend hlater
      exact Machine.readString_seededStore hwithin hzero hend hlater

/-- A program that halts at once.  Its second string lies over the end of its first, and two data
cells are for the same memory cell. -/
def overlappingData : Program :=
  (((⟨⟨0⟩, #[⟨[], .halt⟩], []⟩ : Program).withString 1 [104, 101, 121]).withString 3 [111]).withData
    [⟨0, 7⟩, ⟨0, 8⟩]

theorem overlapping_data_is_seeded :
    (∃ m, Machine.load { registers := 1, memory := 6, growth := .downward } overlappingData {} =
        .ok m ∧
      m.store.memory.cells[0]? = some 8 ∧ m.store.memory.cells[5]? = some 0 ∧
      m.store.sp.toInt = 5 ∧ Store.readString 3 m.store = .ok [111] m.store) ∧
    Machine.load { registers := 1, memory := 6, growth := .downward }
      (overlappingData.withData [⟨6, 1⟩, ⟨-1, 1⟩]) {} = .error (.outOfBounds .memory 6) := by
  have hconfig : Config.check { registers := 1, memory := 6, growth := .downward } = .ok () := rfl
  obtain ⟨hload, -, -, hloaded⟩ := memory_is_seeded hconfig overlappingData {}
  obtain ⟨-, herror, -⟩ :=
    memory_is_seeded hconfig (overlappingData.withData [⟨6, 1⟩, ⟨-1, 1⟩]) {}
  obtain ⟨m, hm⟩ := hload.mpr (by decide)
  obtain ⟨hmemory, -, hsp, -, hstring⟩ := hloaded m hm
  refine ⟨⟨m, hm, hmemory 0, hmemory 5, hsp, ?_⟩, ?_⟩
  · exact hstring _ 3 [111] [⟨0, 7⟩, ⟨0, 8⟩] rfl (by decide) (by decide) (by decide)
  · exact (herror _).mpr ⟨overlappingData.data, ⟨6, 1⟩, [⟨-1, 1⟩], rfl, by decide, by decide, rfl⟩

end WordMachine

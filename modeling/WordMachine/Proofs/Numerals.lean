/-
Numerals that are printed and read.

An integer is printed in decimal, with a minus sign if it is negative and without superfluous zeros.
It is read from a token, which is a word of the stream.  So integers that are printed with blanks
between them are read back one after another, however the bytes are cut into segments.

* `Numeral.readInteger?_integer`: the numeral of a word stands for the word;
* `words_spaced`: numerals with blanks between them are the words of the text;
* `Intrinsic.body_readInteger`, `Intrinsic.body_printInteger`: what the two bodies do;
* `Machine.Reading` says that a machine is about to read some integers, `Machine.Reading.call` what
  one call makes of it, and `Session.serveAll_reading` what any number of calls make of it;
* `printed_integers_read_back`.
-/
import WordMachine.Proofs.Service
import WordMachine.Proofs.Tokens

namespace WordMachine

/-! ### Numerals -/

namespace Numeral

theorem toNat_digit {n : Nat} (h : n < 10) : (digit n).toNat = 48 + n := by
  simp [digit]
  omega

/-- A number that is not zero does not start with the digit zero. -/
theorem head?_digits_ne {n : Nat} (h : 0 < n) : (digits n).head? ≠ some 48 := by
  induction n using digits.induct with
  | case1 n hlt =>
    rw [digits, if_pos hlt]
    intro hzero
    have hbyte : digit n = 48 := Option.some.inj hzero
    have hnat := toNat_digit hlt
    rw [hbyte] at hnat
    have : (48 : UInt8).toNat = 48 := rfl
    omega
  | case2 n hge ih =>
    rw [digits, if_neg hge, List.head?_append_of_ne_nil _ (digits_ne_nil _)]
    exact ih (by omega)

theorem eq_zero_of_head?_digits {n : Nat} (h : (digits n).head? = some 48) : digits n = [48] := by
  by_cases hpos : 0 < n
  · exact absurd h (head?_digits_ne hpos)
  · rw [Nat.eq_zero_of_not_pos hpos, digits]
    rfl

theorem not_blank_of_isDigit {b : UInt8} (h : isDigit b = true) : isBlank b = false := by
  simp [isDigit, isBlank, UInt8.le_iff_toNat_le, ← UInt8.toNat_inj] at h ⊢
  omega

/-- The numeral of an integer is a run of digits after a sign. -/
theorem integer_eq (n : Int) : integer n = (if n < 0 then [45] else []) ++ digits n.natAbs := by
  rw [integer]
  split <;> rfl

theorem integer_ne_nil (n : Int) : integer n ≠ [] := by
  rw [integer_eq]
  simp [digits_ne_nil]

theorem not_blank_of_mem_integer {n : Int} {b : UInt8} (h : b ∈ integer n) : isBlank b = false := by
  rw [integer_eq] at h
  rcases List.mem_append.mp h with h | h
  · split at h
    · rw [List.mem_singleton.mp h]
      rfl
    · cases h
  · exact not_blank_of_isDigit (List.all_eq_true.mp (all_isDigit_digits _) b h)

/-- A text that starts with a digit has no sign. -/
theorem splitSign_cons_of_isDigit {d : UInt8} (h : isDigit d = true) (rest : Bytes) :
    splitSign (d :: rest) = (false, d :: rest) := by
  have hminus : d ≠ 45 := by
    rintro rfl
    cases h
  have hplus : d ≠ 43 := by
    rintro rfl
    cases h
  rw [splitSign, if_neg hminus, if_neg hplus]

/-- Digits have no sign. -/
theorem splitSign_of_all {ds : Bytes} (h : ds.all isDigit = true) : splitSign ds = (false, ds) := by
  cases ds with
  | nil => rfl
  | cons d ds => exact splitSign_cons_of_isDigit (List.all_eq_true.mp h d List.mem_cons_self) ds

/-- **The numeral of a word stands for the word.** -/
theorem readInteger?_integer (w : Word) : readInteger? (integer w.toInt) = some w := by
  have hword : Word.ofInt? w.toInt = some w := by
    rw [Word.ofInt?, if_pos ⟨w.le_toInt, w.toInt_le⟩, Int32.ofInt_toInt]
  have hdigits : digits w.toInt.natAbs ≠ [] ∧ (digits w.toInt.natAbs).all isDigit = true :=
    ⟨digits_ne_nil _, all_isDigit_digits _⟩
  by_cases hneg : w.toInt < 0
  · have hvalue : -((value (digits w.toInt.natAbs) : Nat) : Int) = w.toInt := by
      rw [value_digits]
      omega
    rw [integer, if_pos hneg, readInteger?, splitSign, if_pos rfl]
    dsimp only
    rw [if_pos hdigits, if_pos rfl, hvalue, hword]
  · have hvalue : ((value (digits w.toInt.natAbs) : Nat) : Int) = w.toInt := by
      rw [value_digits]
      omega
    rw [integer, if_neg hneg, readInteger?, splitSign_of_all (all_isDigit_digits _)]
    dsimp only
    rw [if_pos hdigits, if_neg Bool.false_ne_true, hvalue, hword]

end Numeral

/-! ### Numerals with blanks between them -/

/-- Words as they are printed, each with the blanks that follow it. -/
def spaced (entries : List (Word × Bytes)) : Bytes :=
  entries.flatMap fun e => Numeral.integer e.1.toInt ++ e.2

theorem words_append_of_blank {blanks : Bytes} (h : ∀ b ∈ blanks, isBlank b = true)
    (text : Bytes) : words (blanks ++ text) = words text := by
  induction blanks with
  | nil => rfl
  | cons b blanks ih =>
    rw [List.cons_append, words_cons_of_blank (h b List.mem_cons_self)]
    exact ih fun c hc => h c (List.mem_cons_of_mem _ hc)

/-- **Numerals with blanks between them are the words of the text.** -/
theorem words_spaced {entries : List (Word × Bytes)}
    (hblank : ∀ e ∈ entries, ∀ b ∈ e.2, isBlank b = true)
    (hgap : ∀ e ∈ entries.dropLast, e.2 ≠ []) :
    words (spaced entries) = entries.map fun e => Numeral.integer e.1.toInt := by
  induction entries with
  | nil => rfl
  | cons e rest ih =>
    have he : ∀ b ∈ e.2, isBlank b = true := hblank e List.mem_cons_self
    have hrest : words (spaced rest) = rest.map fun e => Numeral.integer e.1.toInt := by
      refine ih (fun e' he' => hblank e' (List.mem_cons_of_mem _ he')) fun e' he' => hgap e' ?_
      rw [List.dropLast_cons_of_ne_nil (List.ne_nil_of_mem (List.dropLast_subset _ he'))]
      exact List.mem_cons_of_mem _ he'
    -- What follows the numeral starts with a blank, if there is anything.
    have hnext : ∀ b ∈ (e.2 ++ spaced rest).head?, isBlank b = true := by
      intro b hb
      by_cases hempty : e.2 = []
      · have hlast : rest = [] := by
          by_contra hne
          refine hgap e ?_ hempty
          rw [List.dropLast_cons_of_ne_nil hne]
          exact List.mem_cons_self
        rw [hempty, hlast] at hb
        cases hb
      · rw [List.head?_append_of_ne_nil _ hempty] at hb
        exact he b (List.mem_of_mem_head? hb)
    calc words (spaced (e :: rest))
      _ = words (Numeral.integer e.1.toInt ++ (e.2 ++ spaced rest)) := by
        rw [spaced, List.flatMap_cons, List.append_assoc]
        rfl
      _ = Numeral.integer e.1.toInt :: words (e.2 ++ spaced rest) :=
        words_append (Numeral.integer_ne_nil _) (fun _ => Numeral.not_blank_of_mem_integer) hnext
      _ = Numeral.integer e.1.toInt :: rest.map fun e => Numeral.integer e.1.toInt := by
        rw [words_append_of_blank he, hrest]

/-! ### One call -/

namespace Intrinsic

variable {w : World} {argument : Word}

theorem body_printInteger
    (hargument : Store.frameLoad Frame.argumentOffset w.store = .ok argument w.store)
    (hlimit : w.console.sink.limit = none) :
    printInteger.body w = .ok .unit
      { w with
        console.sink.written := w.console.sink.written ++ Numeral.integer argument.toInt } := by
  rw [body, Action.bind_of_ok (onStore_argument hargument)]
  exact print_of_unlimited hlimit _

variable {source : Source}

/-- A numeral that is the next token is completed with its word. -/
theorem body_readInteger
    (hargument : Store.frameLoad Frame.argumentOffset w.store = .ok argument w.store)
    (hflush : w.console.sink.flushFailure = none) {v : Word}
    (hnext : w.console.source.nextToken = .ok (some (Numeral.integer v.toInt)) source) :
    readInteger.body w = .ok (.ofValue v) { w with console.source := source } := by
  have haccept : Input.integer (Numeral.integer v.toInt) = .ok v := by
    rw [Input.integer, Numeral.readInteger?_integer]
  rw [body, Action.bind_of_ok (onStore_argument hargument)]
  refine (read_of_some hflush hnext).trans ?_
  rw [haccept]
  rfl

theorem body_readInteger_of_none
    (hargument : Store.frameLoad Frame.argumentOffset w.store = .ok argument w.store)
    (hflush : w.console.sink.flushFailure = none)
    (hnext : w.console.source.nextToken = .ok none source) :
    readInteger.body w = .ok (.failed .endOfInput)
      { w with
        console.source := source
        journal := w.journal.push (.readFailed .readInteger .endOfInput) } := by
  rw [body, Action.bind_of_ok (onStore_argument hargument)]
  exact read_of_none hflush hnext

end Intrinsic

/-- How a read ends that finds this value, or the end of the stream. -/
def Completion.ofRead (found : Option Word) : Completion :=
  found.elim (.failed .endOfInput) .ofValue

theorem Completion.value_ofRead (found : Option Word) : (ofRead found).value = found.getD 0 := by
  cases found <;> rfl

namespace Machine

/-- A machine that may read, and whose stream has the numerals of these words and nothing else. -/
structure Reading (g : Growth) (size k : Nat) (values : List Word) (m : Machine) : Prop where
  poised : m.Poised g size k
  allowed : m.config.capabilities.allows .readInteger = true
  words : ∃ text, m.console.source.Holds text ∧
    words text = values.map fun v => Numeral.integer v.toInt

variable {g : Growth} {size k : Nat} {m : Machine} {values : List Word}

/-- **A call reads the first integer** and leaves the others, or finds that there is none. -/
theorem Reading.call (h : m.Reading g size k values) (fuel : Nat) (argument : Word) :
    ∃ m', m.call fuel (.intrinsic .readInteger) argument =
        some (.ok (answer argument (.ofRead values.head?)) m') ∧
      m'.Reading g size k values.tail ∧
      m'.store.registers.cells[0]? = some (values.head?.getD 0) := by
  obtain ⟨text, htext, hwords⟩ := h.words
  obtain ⟨source, text', hnext, htext', hwords'⟩ := htext.nextToken
  let console : Console := { m.console with source }
  have hbody : ∀ w : World, w.console = m.console →
      Store.frameLoad Frame.argumentOffset w.store = .ok argument w.store →
      ∃ journal, Intrinsic.readInteger.body w =
        .ok (Completion.ofRead values.head?) { w with console, journal } := by
    intro w hw hargument
    have hflush : w.console.sink.flushFailure = none := by rw [hw, h.poised.flush]
    cases values with
    | nil =>
      -- No word is left, so the token is missing.
      rw [hwords, ← hw] at hnext
      exact ⟨_, hw ▸ Intrinsic.body_readInteger_of_none hargument hflush hnext⟩
    | cons v rest =>
      rw [hwords, ← hw] at hnext
      exact ⟨_, hw ▸ Intrinsic.body_readInteger hargument hflush hnext⟩
  obtain ⟨m', hcall, hanswered⟩ := h.poised.call_of_body h.allowed hbody h.poised.flush fuel
  have hvalue := hanswered.value h.poised.register
  rw [Completion.value_ofRead] at hvalue
  refine ⟨m', hcall, ?_, hvalue⟩
  constructor
  case poised => exact h.poised.answered hanswered h.poised.flush
  case allowed => rw [hanswered.config, h.allowed]
  case words =>
    refine ⟨text', ?_, ?_⟩
    · rw [hanswered.console]
      exact htext'
    · rw [hwords', hwords, List.map_tail]

/-- A call appends the numeral of its argument to what was written. -/
theorem Poised.call_printInteger (h : m.Poised g size k) (hlimit : m.console.sink.limit = none)
    (fuel : Nat) (argument : Word) :
    ∃ m', m.call fuel (.intrinsic .printInteger) argument =
        some (.ok (answer argument .unit) m') ∧
      m'.console.sink.written = m.console.sink.written ++ Numeral.integer argument.toInt := by
  let console : Console :=
    { m.console with
      sink.written := m.console.sink.written ++ Numeral.integer argument.toInt }
  have hbody : ∀ w : World, w.console = m.console →
      Store.frameLoad Frame.argumentOffset w.store = .ok argument w.store →
      ∃ journal, Intrinsic.printInteger.body w = .ok .unit { w with console, journal } := by
    intro w hw hargument
    have hprint := Intrinsic.body_printInteger hargument (by rw [hw, hlimit])
    rw [hw] at hprint
    exact ⟨w.journal, hprint⟩
  obtain ⟨m', hcall, hanswered⟩ := h.call_of_body rfl hbody h.flush fuel
  exact ⟨m', hcall, by rw [hanswered.console]⟩

end Machine

/-! ### All calls -/

namespace Session

variable {g : Growth} {size k : Nat} {m : Machine}

/-- The answer to the call that is made after `i` others, if a stream has these words. -/
def readAnswer (values : List Word) (i : Nat) (argument : Word) : Except Fault Answer :=
  .ok (.record (Machine.answer argument (.ofRead values[i]?)))

theorem readAnswer_succ (values : List Word) (i : Nat) :
    readAnswer values (i + 1) = readAnswer values.tail i := by
  funext argument
  rw [readAnswer, readAnswer, List.getElem?_tail]

theorem readAnswer_eq (values : List Word) :
    readAnswer values = fun i argument => .ok (.record
      { argument
        returnAddress := Machine.hostReturn
        value := values[i]?.getD 0
        status := if i < values.length then .ok else .endOfInput
        phase := .dispatched }) := by
  funext i argument
  rw [readAnswer, Machine.answer, Completion.value_ofRead]
  by_cases hi : i < values.length
  · rw [if_pos hi, List.getElem?_eq_getElem hi]
    rfl
  · rw [if_neg hi, List.getElem?_eq_none (Nat.le_of_not_lt hi)]
    rfl

/-- **Calls read one integer after another**, and then find the end of the stream. -/
theorem serveAll_reading {values : List Word} (h : m.Reading g size k values) (fuel : Nat)
    (arguments : List Word) (records : Array CallRecord) :
    ∃ t, serveAll fuel (arguments.map (.call (.intrinsic .readInteger))) ⟨m, records⟩ =
        some (arguments.mapIdx (readAnswer values), t) ∧
      ∀ n, arguments.length = n + 1 →
        t.machine.store.registers.cells[0]? = some (values[n]?.getD 0) := by
  induction arguments generalizing m values records with
  | nil =>
    refine ⟨⟨m, records⟩, rfl, ?_⟩
    intro n hn
    cases hn
  | cons argument arguments ih =>
    obtain ⟨m', hcall, hm', hregister⟩ := h.call fuel argument
    obtain ⟨t, ht, hlast⟩ := ih hm' records
    have hserve : serve fuel (.call (.intrinsic .readInteger) argument) ⟨m, records⟩ =
        some (.ok (.record (Machine.answer argument (.ofRead values.head?))) ⟨m', records⟩) := by
      rw [serve, hcall]
      rfl
    refine ⟨t, ?_, ?_⟩
    · rw [List.map_cons, serveAll, hserve, Option.bind_eq_bind, Option.bind_some]
      show Option.bind (serveAll fuel _ ⟨m', records⟩) _ = _
      rw [ht, Option.bind_some, List.mapIdx_cons, List.head?_eq_getElem?]
      simp only [readAnswer_succ]
      rfl
    · intro n hn
      cases n with
      | zero =>
        -- The only call: what it left in the register is still there.
        rw [List.length_eq_zero_iff.mp (Nat.succ.inj hn)] at ht
        cases ht
        rw [hregister, List.head?_eq_getElem?]
      | succ n =>
        rw [hlast n (Nat.succ.inj hn), List.getElem?_tail]

end Session

/-- **Printed integers read back.**  Take a machine with a register, room for a frame and a sink
that can be flushed.  If it may read, and its stream has printed integers with blanks between them,
cut into segments anywhere, then calls answer with the integers in order, each of which is also the
first register after its call, and with the end of input from then on.  A call that prints appends
the numeral of its argument, if what is written has no limit.  A numeral has a minus sign exactly if
the integer is negative, then digits without superfluous zeros. -/
theorem printed_integers_read_back {c : Config} {built : Store} {m : Machine}
    (hbuilt : Store.ofConfig c = .ok built) (hshape : m.store.shape = built.shape)
    (hsp : m.store.InBounds) (hregister : 0 < m.store.registers.size)
    (hroom : m.store.depth + 3 ≤ m.store.memory.size)
    (hflush : m.console.sink.flushFailure = none) :
    (∀ (front : Bytes) (entries : List (Word × Bytes)) (segments : List Bytes),
      m.config.capabilities.contains .input = true →
      (∀ b ∈ front, isBlank b = true) → (∀ e ∈ entries, ∀ b ∈ e.2, isBlank b = true) →
      (∀ e ∈ entries.dropLast, e.2 ≠ []) →
      (∀ segment ∈ segments, segment ≠ []) → segments.flatten = front ++ spaced entries →
      m.console.source = .ofSegments (segments.map .bytes) →
      ∀ (fuel : Nat) (arguments : List Word) (records : Array CallRecord), ∃ t,
        Session.serveAll fuel (arguments.map (.call (.intrinsic .readInteger))) ⟨m, records⟩ =
          some (arguments.mapIdx fun i argument => .ok (.record
            { argument
              returnAddress := Machine.hostReturn
              value := (entries.map Prod.fst)[i]?.getD 0
              status := if i < entries.length then .ok else .endOfInput
              phase := .dispatched }), t) ∧
        ∀ n, arguments.length = n + 1 →
          t.machine.store.registers.cells[0]? = some ((entries.map Prod.fst)[n]?.getD 0)) ∧
    (m.console.sink.limit = none → ∀ fuel argument, ∃ m',
      m.call fuel (.intrinsic .printInteger) argument =
        some (.ok (Machine.answer argument .unit) m') ∧
      m'.console.sink.written = m.console.sink.written ++ Numeral.integer argument.toInt) ∧
    ∀ w : Word, ∃ ds : Bytes,
      Numeral.integer w.toInt = (if w.toInt < 0 then [45] else []) ++ ds ∧
      ds ≠ [] ∧ ds.all Numeral.isDigit = true ∧ (ds.head? = some 48 → ds = [48]) ∧
      Numeral.value ds = w.toInt.natAbs := by
  have hpoised := Machine.poised_of_inBounds hbuilt hshape hsp hregister hroom hflush
  refine ⟨?_, fun hlimit => hpoised.call_printInteger hlimit, fun w => ?_⟩
  · intro front entries segments hinput hfront hblank hgap hsegments htext hsource
    have hreading : m.Reading c.growth c.memory m.store.depth (entries.map Prod.fst) := by
      refine ⟨hpoised, ?_, segments.flatten, ?_, ?_⟩
      · rw [CapabilitySet.allows, Intrinsic.needs, List.all_cons, hinput]
        rfl
      · rw [hsource]
        exact Source.holds_ofSegments hsegments
      · rw [htext, words_append_of_blank hfront, words_spaced hblank hgap, List.map_map]
        rfl
    intro fuel arguments records
    obtain ⟨t, ht, hlast⟩ := Session.serveAll_reading hreading fuel arguments records
    refine ⟨t, ?_, hlast⟩
    rw [ht, Session.readAnswer_eq, List.length_map]
  · refine ⟨Numeral.digits w.toInt.natAbs, Numeral.integer_eq _, Numeral.digits_ne_nil _,
      Numeral.all_isDigit_digits _, Numeral.eq_zero_of_head?_digits, Numeral.value_digits _⟩

/-- A machine whose stack has just room for a frame, before some numerals with odd cuts. -/
def numeralMachine : Machine where
  store := ⟨.ofSize 1, .ofSize 3, .ofCapacity .downward 3, 2, .zero⟩
  console := { source := .ofSegments [.bytes [32, 45], .bytes [50, 49, 52, 55, 52, 56, 51, 54, 52],
    .bytes [56, 9], .bytes [10, 48, 11], .bytes [55, 13]] }
  config := { registers := 1, memory := 3, growth := .downward, capabilities := { input := true } }
  program := ⟨⟨0⟩, #[⟨[], .halt⟩], []⟩

theorem numerals_in_pieces_read_back :
    (∃ t, Session.serveAll 0 ([1, 2, 3, 4].map (.call (.intrinsic .readInteger)))
        ⟨numeralMachine, #[]⟩ =
        some ([.ok (.record ⟨1, Machine.hostReturn, -2147483648, .ok, .dispatched⟩),
          .ok (.record ⟨2, Machine.hostReturn, 0, .ok, .dispatched⟩),
          .ok (.record ⟨3, Machine.hostReturn, 7, .ok, .dispatched⟩),
          .ok (.record ⟨4, Machine.hostReturn, 0, .endOfInput, .dispatched⟩)], t) ∧
      t.machine.store.registers.cells[0]? = some 0) ∧
    ∃ m', numeralMachine.call 0 (.intrinsic .printInteger) (-2147483648) =
        some (.ok (Machine.answer (-2147483648) .unit) m') ∧
      m'.console.sink.written = #[45, 50, 49, 52, 55, 52, 56, 51, 54, 52, 56] := by
  have hbuilt : Store.ofConfig numeralMachine.config = .ok numeralMachine.store := rfl
  obtain ⟨hread, hprint, -⟩ := printed_integers_read_back hbuilt rfl (by decide +kernel)
    (by decide) (by decide +kernel) rfl
  have hnumerals : Numeral.integer (-2147483648 : Word).toInt =
      [45, 50, 49, 52, 55, 52, 56, 51, 54, 52, 56] := by decide +kernel
  have htext : spaced [(-2147483648, [9, 10]), (0, [11]), (7, [13])] =
      [45, 50, 49, 52, 55, 52, 56, 51, 54, 52, 56, 9, 10, 48, 11, 55, 13] := by decide +kernel
  refine ⟨?_, ?_⟩
  · obtain ⟨t, ht, hlast⟩ := hread [32] [(-2147483648, [9, 10]), (0, [11]), (7, [13])]
      [[32, 45], [50, 49, 52, 55, 52, 56, 51, 54, 52], [56, 9], [10, 48, 11], [55, 13]] rfl
      (by simp [isBlank]) (by simp [isBlank]) (by simp) (by simp) (by rw [htext]; rfl) rfl
      0 [1, 2, 3, 4] #[]
    exact ⟨t, ht, hlast 3 rfl⟩
  · obtain ⟨m', hcall, hwritten⟩ := hprint rfl 0 (-2147483648)
    rw [hnumerals] at hwritten
    exact ⟨m', hcall, hwritten⟩

end WordMachine

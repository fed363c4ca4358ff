/-
Numbers that are printed, read and printed again.

A number is printed with six decimals, which may be less than it has, and read as the pattern that
is nearest to them.  So what is read need not be what was printed.  But it has the same text, and
large numbers and the infinities come back as they were.

* `Single.Numeral.parse?_decimal`, `Single.read?_decimal`: what the text of a finite number is read
  as;
* `Single.read?_text`: every text but that of a pattern that stands for no number can be read, and
  what is read has the same text;
* `Machine.Poised.call_printFloat`, `Machine.Poised.call_readFloat`: the two calls;
* `printed_floats_are_stable`.
-/
import Mathlib.Data.List.TakeWhile
import WordMachine.Proofs.NearestSingle

namespace WordMachine

/-! ### Texts -/

namespace Single

open WordMachine.Numeral (isDigit digits paddedDigits splitSign all_isDigit_digits
  all_isDigit_paddedDigits length_paddedDigits digits_ne_nil)

/-- A number of millionths in decimal is read as this number of millionths. -/
theorem Numeral.parse?_decimal (n : Nat) : parse? (decimal n) = some ⟨n, -6⟩ := by
  have hwhole : ∀ b ∈ digits (n / 1000000), isDigit b = true :=
    List.all_eq_true.mp (all_isDigit_digits _)
  have hpadded : ∀ b ∈ paddedDigits 6 n, isDigit b = true :=
    List.all_eq_true.mp (all_isDigit_paddedDigits _ _)
  have htake : (decimal n).takeWhile isDigit = digits (n / 1000000) := by
    rw [decimal, List.takeWhile_append_of_pos hwhole, List.takeWhile_cons_of_neg (by decide),
      List.append_nil]
  have hdrop : (decimal n).dropWhile isDigit = 46 :: paddedDigits 6 n := by
    rw [decimal, List.dropWhile_append_of_pos hwhole, List.dropWhile_cons_of_neg (by decide)]
  have hsplit : splitFraction (46 :: paddedDigits 6 n) = (paddedDigits 6 n, []) := by
    rw [splitFraction, if_pos rfl, List.takeWhile_eq_self_iff.mpr hpadded,
      List.dropWhile_eq_nil_iff.mpr hpadded]
  have hvalue : WordMachine.Numeral.value (digits (n / 1000000) ++ paddedDigits 6 n) = n := by
    rw [WordMachine.Numeral.value_append_paddedDigits, WordMachine.Numeral.value_digits]
    omega
  rw [parse?, htake, hdrop, hsplit]
  simp only
  rw [if_neg (by simp [digits_ne_nil]), hvalue, length_paddedDigits]
  rfl

theorem read?_decimal (negative : Bool) (n : Nat) :
    read? ((if negative then [45] else []) ++ decimal n) =
      some (ofMagnitude negative (nearest n 1000000)) := by
  have hmagnitude : magnitude? (decimal n) = some (nearest n 1000000) := by
    rw [magnitude?, Numeral.parse?_decimal]
    show some (nearest (n * 1) 1000000) = _
    rw [Nat.mul_one]
  have hsplit : splitSign ((if negative then [45] else []) ++ decimal n) =
      (negative, decimal n) := by
    cases negative with
    | true => rfl
    | false =>
      obtain ⟨d, ds, hd⟩ := List.exists_cons_of_ne_nil (digits_ne_nil (n / 1000000))
      have hdigit : isDigit d = true :=
        List.all_eq_true.mp (all_isDigit_digits (n / 1000000)) d (hd ▸ List.mem_cons_self)
      rw [decimal, hd]
      exact WordMachine.Numeral.splitSign_cons_of_isDigit hdigit _
  rw [read?, hsplit]
  simp only
  rw [hmagnitude]
  rfl

variable {x : Single}

/-- A pattern that stands for a number stands for a finite one, unless for an infinity. -/
theorem isFinite_of_not_infinite (h : x.isNaN = false) (hinfinite : ¬ x.isInfinite = true) :
    x.isFinite = true := by
  simp only [isNaN, isInfinite, isFinite, decide_eq_false_iff_not, decide_eq_true_eq] at *
  omega

theorem text_of_infinite (h : x.isInfinite = true) :
    x.text = (if x.isNegative then [45] else []) ++ [105, 110, 102] := by
  have hmagnitude : x.magnitude = infinity := by simpa [isInfinite] using h
  have hunsigned : x.unsignedText = [105, 110, 102] := by
    have hnan : x.isNaN = false := by simp [isNaN, hmagnitude]
    rw [unsignedText, hnan, h]
    rfl
  rw [text, hunsigned]
  split <;> rfl

theorem read?_text_of_infinite (h : x.isInfinite = true) : read? x.text = some x := by
  have hmagnitude : x.magnitude = infinity := by simpa [isInfinite] using h
  have hread : ∀ negative : Bool, read? ((if negative then [45] else []) ++ [105, 110, 102]) =
      some (ofMagnitude negative infinity) := by decide +kernel
  rw [text_of_infinite h, hread, ← hmagnitude, ofMagnitude_magnitude]

/-- A number that is not less than sixteen has a large exponent. -/
theorem le_scale_of_le_exact (h : 16 ≤ |x.exact|) : 130 ≤ x.scale := by
  by_contra hsmall
  have hunits : x.units ≤ 16777215 * 2 ^ 129 :=
    Nat.mul_le_mul (Nat.le_of_lt_succ x.significand_lt)
      (Nat.pow_le_pow_right (by decide) (by omega))
  rw [abs_exact, exactSize_eq, le_div_iff₀ (by norm_num)] at h
  have hnat : 16 * 2 ^ 149 ≤ x.units := by exact_mod_cast h
  omega

/-- **What is read for the text of a number has the same text**, and it is the same number if this
is infinite or not less than sixteen. -/
theorem read?_text (h : x.isNaN = false) :
    ∃ y, read? x.text = some y ∧ y.text = x.text ∧
      (x.isInfinite = true ∨ x.isFinite = true ∧ 16 ≤ |x.exact| → y = x) := by
  by_cases hinfinite : x.isInfinite = true
  · exact ⟨x, read?_text_of_infinite hinfinite, rfl, fun _ => rfl⟩
  have hfinite := isFinite_of_not_infinite h hinfinite
  rw [text_of_finite hfinite, read?_decimal]
  by_cases hscale : 130 ≤ x.scale
  · refine ⟨x, ?_, text_of_finite hfinite, fun _ => rfl⟩
    rw [nearest_millionths_of_le hfinite hscale, ofMagnitude_magnitude]
  · have hbound : nearest x.millionths 1000000 < 2147483648 :=
      Nat.lt_of_le_of_lt (Nat.min_le_left _ _) (by decide)
    have hsign := isNegative_ofMagnitude x.isNegative hbound
    obtain ⟨hread, hsame⟩ := millionths_of_nearest (by omega)
      (magnitude_ofMagnitude x.isNegative hbound)
    refine ⟨_, rfl, ?_, ?_⟩
    · rw [text_of_finite hread, hsign, hsame]
    · rintro (hlarge | ⟨-, hlarge⟩)
      · exact absurd hlarge hinfinite
      · exact absurd (le_scale_of_le_exact hlarge) hscale

/-- Nothing in the text of a number is blank. -/
theorem not_blank_of_mem_text (h : x.isNaN = false) {b : UInt8} (hb : b ∈ x.text) :
    isBlank b = false := by
  have hsign : ∀ b ∈ (if x.isNegative then [45] else [] : Bytes), isBlank b = false := by
    intro b hb
    split at hb
    · rw [List.mem_singleton.mp hb]
      rfl
    · cases hb
  by_cases hinfinite : x.isInfinite = true
  · rw [text_of_infinite hinfinite] at hb
    rcases List.mem_append.mp hb with hb | hb
    · exact hsign b hb
    · simp only [List.mem_cons, List.not_mem_nil, or_false] at hb
      rcases hb with rfl | rfl | rfl <;> rfl
  have hfinite := isFinite_of_not_infinite h hinfinite
  rw [text_of_finite hfinite, decimal] at hb
  rcases List.mem_append.mp hb with hb | hb
  · exact hsign b hb
  rcases List.mem_append.mp hb with hb | hb
  · exact WordMachine.Numeral.not_blank_of_isDigit
      (List.all_eq_true.mp (all_isDigit_digits _) b hb)
  rcases List.mem_cons.mp hb with rfl | hb
  · rfl
  · exact WordMachine.Numeral.not_blank_of_isDigit
      (List.all_eq_true.mp (all_isDigit_paddedDigits _ _) b hb)

end Single

/-! ### Calls -/

namespace Intrinsic

variable {w : World} {argument : Word}

theorem body_printFloat
    (hargument : Store.frameLoad Frame.argumentOffset w.store = .ok argument w.store)
    (hlimit : w.console.sink.limit = none) :
    printFloat.body w = .ok .unit
      { w with
        store.scratch := Single.ofWord argument
        console.sink.written := w.console.sink.written ++ (Single.ofWord argument).text } := by
  have hstage : World.onStore (Store.stageFloat (Single.ofWord argument)) w =
      .ok () { w with store.scratch := Single.ofWord argument } := rfl
  rw [body, Action.bind_of_ok (onStore_argument hargument)]
  refine (Action.bind_of_ok hstage).trans ?_
  exact print_of_unlimited (w := { w with store.scratch := Single.ofWord argument }) hlimit _

/-- A text that can be read is completed with the word that holds the number. -/
theorem body_readFloat
    (hargument : Store.frameLoad Frame.argumentOffset w.store = .ok argument w.store)
    (hflush : w.console.sink.flushFailure = none) {token : Bytes} {x : Single} {source : Source}
    (hnext : w.console.source.nextToken = .ok (some token) source)
    (hread : Single.read? token = some x) :
    readFloat.body w = .ok (.ofValue x.toWord)
      { w with store.scratch := x, console.source := source } := by
  have haccept : acceptFloat token { w with console.source := source } =
      .ok (.ok x.toWord) { w with store.scratch := x, console.source := source } := by
    rw [acceptFloat, Input.float, hread]
    rfl
  rw [body, Action.bind_of_ok (onStore_argument hargument)]
  exact (read_of_some hflush hnext).trans (Action.bind_of_ok haccept)

end Intrinsic

namespace Machine

variable {g : Growth} {size k : Nat} {m : Machine}

/-- A call appends the text of the number that its argument holds to what was written. -/
theorem Poised.call_printFloat (h : m.Poised g size k)
    (hallowed : m.config.capabilities.allows .printFloat = true)
    (hlimit : m.console.sink.limit = none) (fuel : Nat) (argument : Word) :
    ∃ m', m.call fuel (.intrinsic .printFloat) argument = some (.ok (answer argument .unit) m') ∧
      Answered .unit
        { m.console with
          sink.written := m.console.sink.written ++ (Single.ofWord argument).text } m m' := by
  have hbody : ∀ w : World, w.console = m.console →
      Store.frameLoad Frame.argumentOffset w.store = .ok argument w.store →
      ∃ journal, Intrinsic.printFloat.body w = .ok .unit
        { store := { w.store with scratch := Single.ofWord argument }
          console := { m.console with
            sink.written := m.console.sink.written ++ (Single.ofWord argument).text }
          journal } := by
    intro w hw hargument
    have hprint := Intrinsic.body_printFloat hargument (by rw [hw, hlimit])
    rw [hw] at hprint
    exact ⟨w.journal, hprint⟩
  exact h.call_of_scratch hallowed (fun _ => Single.ofWord argument) hbody h.flush fuel

/-- A call reads the number that the next token stands for. -/
theorem Poised.call_readFloat (h : m.Poised g size k)
    (hallowed : m.config.capabilities.allows .readFloat = true) {token : Bytes} {x : Single}
    {source : Source} (hnext : m.console.source.nextToken = .ok (some token) source)
    (hread : Single.read? token = some x) (fuel : Nat) (argument : Word) :
    ∃ m', m.call fuel (.intrinsic .readFloat) argument =
        some (.ok (answer argument (.ofValue x.toWord)) m') ∧
      Answered (.ofValue x.toWord) { m.console with source } m m' := by
  have hbody : ∀ w : World, w.console = m.console →
      Store.frameLoad Frame.argumentOffset w.store = .ok argument w.store →
      ∃ journal, Intrinsic.readFloat.body w = .ok (.ofValue x.toWord)
        { store := { w.store with scratch := x }
          console := { m.console with source }
          journal } := by
    intro w hw hargument
    have hread' := Intrinsic.body_readFloat hargument (by rw [hw, h.flush]) (by rw [hw, hnext])
      hread
    rw [hw] at hread'
    exact ⟨w.journal, hread'⟩
  exact h.call_of_scratch hallowed (fun _ => x) hbody h.flush fuel

end Machine

/-- **The text of a number is stable under printing and reading.**  Take a machine with a register,
room for a frame and a sink that can be flushed and has no limit, and let it have floats and input.
Take a word that holds a number, finite or not.  There is a word with the same text, which is the
same word if the number is infinite or not less than sixteen in size.  The machine prints the text
of the first word.  If the text stands in its stream, with nothing but blanks before it and with a
blank or nothing after it, cut into segments anywhere, then a call that reads comes back with status
`ok` and the second word, and for this the machine prints the same text again. -/
theorem printed_floats_are_stable {c : Config} {built : Store} {m : Machine}
    (hbuilt : Store.ofConfig c = .ok built) (hshape : m.store.shape = built.shape)
    (hsp : m.store.InBounds) (hregister : 0 < m.store.registers.size)
    (hroom : m.store.depth + 3 ≤ m.store.memory.size)
    (hflush : m.console.sink.flushFailure = none) (hlimit : m.console.sink.limit = none)
    (hfloats : m.config.capabilities.contains .floats = true)
    (hinput : m.config.capabilities.contains .input = true)
    {w : Word} (hw : (Single.ofWord w).isNaN = false) :
    ∃ v : Word,
      ((Single.ofWord w).isInfinite = true ∨
        (Single.ofWord w).isFinite = true ∧ 16 ≤ |(Single.ofWord w).exact| → v = w) ∧
      ∀ (front rest : Bytes) (segments : List Bytes),
        (∀ b ∈ front, isBlank b = true) → (∀ b ∈ rest.head?, isBlank b = true) →
        (∀ segment ∈ segments, segment ≠ []) →
        segments.flatten = front ++ ((Single.ofWord w).text ++ rest) →
        m.console.source = .ofSegments (segments.map .bytes) →
        ∀ (fuel : Nat) (argument : Word), ∃ m₁ m₂ m₃,
          m.call fuel (.intrinsic .printFloat) w = some (.ok (Machine.answer w .unit) m₁) ∧
          m₁.console.sink.written = m.console.sink.written ++ (Single.ofWord w).text ∧
          m₁.call fuel (.intrinsic .readFloat) argument =
            some (.ok
              { argument
                returnAddress := Machine.hostReturn
                value := v
                status := .ok
                phase := .dispatched } m₂) ∧
          m₂.call fuel (.intrinsic .printFloat) v = some (.ok (Machine.answer v .unit) m₃) ∧
          m₃.console.sink.written = m₁.console.sink.written ++ (Single.ofWord w).text := by
  have hpoised := Machine.poised_of_inBounds hbuilt hshape hsp hregister hroom hflush
  have hprint : m.config.capabilities.allows .printFloat = true := by
    simp [CapabilitySet.allows, Intrinsic.needs, hfloats]
  have hallowed : m.config.capabilities.allows .readFloat = true := by
    simp [CapabilitySet.allows, Intrinsic.needs, hfloats, hinput]
  obtain ⟨y, hread, htext, hsame⟩ := Single.read?_text hw
  refine ⟨y.toWord, ?_, ?_⟩
  · intro hlarge
    rw [hsame hlarge, Single.toWord_ofWord]
  · intro front rest segments hfront hrest hsegments hflatten hsource fuel argument
    have hne : (Single.ofWord w).text ≠ [] := by
      intro hnil
      rw [hnil] at hread
      cases hread
    have hwords : (words segments.flatten).head? = some (Single.ofWord w).text := by
      rw [hflatten, words_append_of_blank hfront,
        words_append hne (fun _ => Single.not_blank_of_mem_text hw) hrest]
      rfl
    obtain ⟨source, -, hnext, -⟩ := (Source.holds_ofSegments hsegments).nextToken
    rw [hwords, ← hsource] at hnext
    -- Each of the three calls finds a machine on which the host can call.
    obtain ⟨m₁, hcall₁, ha₁⟩ := hpoised.call_printFloat hprint hlimit fuel w
    have hpoised₁ := hpoised.answered ha₁ hflush
    obtain ⟨m₂, hcall₂, ha₂⟩ := hpoised₁.call_readFloat (by rw [ha₁.config, hallowed])
      (by rw [ha₁.console]; exact hnext) hread fuel argument
    have hpoised₂ := hpoised₁.answered ha₂ hpoised₁.flush
    have hlimit₂ : m₂.console.sink.limit = none := by
      rw [ha₂.console, ha₁.console]
      exact hlimit
    obtain ⟨m₃, hcall₃, ha₃⟩ := hpoised₂.call_printFloat
      (by rw [ha₂.config, ha₁.config, hprint]) hlimit₂ fuel y.toWord
    refine ⟨m₁, m₂, m₃, hcall₁, by rw [ha₁.console], hcall₂, hcall₃, ?_⟩
    rw [ha₃.console, ha₂.console, Single.ofWord_toWord, htext]

/-- A machine with just room for a frame, before the text of the largest number below `-16`, which
is cut twice. -/
def floatMachine : Machine where
  store := ⟨.ofSize 1, .ofSize 3, .ofCapacity .upward 3, 0, .zero⟩
  console := { source := .ofSegments [.bytes [32, 45], .bytes [49, 54, 46, 48, 48, 48, 48, 48],
    .bytes [50]] }
  config := { registers := 1, memory := 3, capabilities := { floats := true, input := true } }
  program := ⟨⟨0⟩, #[⟨[], .halt⟩], []⟩

/-- The number is `-(16 + 1 / 2 ^ 19)`.  Its text has fewer digits, but it is read as the same
word. -/
theorem float_below_minus_sixteen_is_stable :
    (Single.ofWord (-1048575999)).exact = -(8388609 / 524288) ∧ ∃ m₁ m₂ m₃,
      floatMachine.call 0 (.intrinsic .printFloat) (-1048575999) =
        some (.ok (Machine.answer (-1048575999) .unit) m₁) ∧
      m₁.call 0 (.intrinsic .readFloat) 7 =
        some (.ok ⟨7, Machine.hostReturn, -1048575999, .ok, .dispatched⟩ m₂) ∧
      m₂.call 0 (.intrinsic .printFloat) (-1048575999) =
        some (.ok (Machine.answer (-1048575999) .unit) m₃) ∧
      m₃.console.sink.written = #[45, 49, 54, 46, 48, 48, 48, 48, 48, 50,
        45, 49, 54, 46, 48, 48, 48, 48, 48, 50] := by
  have htext : (Single.ofWord (-1048575999)).text = [45, 49, 54, 46, 48, 48, 48, 48, 48, 50] := by
    decide +kernel
  have hexact : (Single.ofWord (-1048575999)).exact = -(8388609 / 524288) := by decide +kernel
  have hlarge : 16 ≤ |(Single.ofWord (-1048575999)).exact| := by
    rw [hexact, abs_neg, abs_of_nonneg (by norm_num)]
    norm_num
  have hbuilt : Store.ofConfig floatMachine.config = .ok floatMachine.store := rfl
  obtain ⟨v, hsame, hcalls⟩ := printed_floats_are_stable hbuilt rfl (by decide +kernel) (by decide)
    (by decide +kernel) rfl rfl rfl rfl
    (by decide +kernel : (Single.ofWord (-1048575999)).isNaN = false)
  obtain rfl := hsame (.inr ⟨by decide +kernel, hlarge⟩)
  obtain ⟨m₁, m₂, m₃, hprint, hwritten, hread, hprint', hwritten'⟩ := hcalls [32] []
    [[32, 45], [49, 54, 46, 48, 48, 48, 48, 48], [50]] (by simp [isBlank]) (by simp) (by simp)
    (by rw [htext]; rfl) rfl 0 7
  refine ⟨hexact, m₁, m₂, m₃, hprint, hread, hprint', ?_⟩
  rw [hwritten', hwritten, htext]
  rfl

end WordMachine

/-
Which tokens are integers and truth values.

Tokens are arbitrary bytes without blanks.  Those that a read takes for an integer are an optional
sign and digits, as long as the number is in the range of words; for a truth value there are two
words besides.  All of them are ASCII texts.

* `Text.eq_of_decodeLossy`: an ASCII text is decoded from its own bytes only, so that it makes no
  difference whether a token is decoded before it is compared with one;
* `Numeral.Denotes`: the grammar of integers, with the number that each stands for;
* `Numeral.readInteger?_eq_some_iff`: what is read is what the grammar says;
* `Machine.Poised.call_read`: a call that reads is answered with what is made of the token;
* `reads_accept_the_grammar`.
-/
import Mathlib.Data.List.Induction
import Mathlib.Data.Nat.Digits.Defs
import WordMachine.Proofs.Numerals

namespace WordMachine

/-! ### Decoding -/

namespace Text

theorem decodeLossy_cons_of_lt {b : UInt8} (hb : b < 0x80) (rest : Bytes) :
    decodeLossy (b :: rest) = Char.ofNat b.toNat :: decodeLossy rest := by
  have hlead : Lead.of? b = some { tails := 0, bits := b.toNat } := by rw [Lead.of?, if_pos hb]
  rw [decodeLossy, hlead]
  simp [takeTails, characterOf]

/-- A promise that is kept is kept by the next byte. -/
theorem takeTails_of_length {n : Nat} {low high : UInt8} {rest : Bytes}
    (h : (takeTails (n + 1) low high rest).length = n + 1) :
    ∃ b rest', low.toNat ≤ b.toNat ∧ b.toNat ≤ high.toNat ∧
      takeTails (n + 1) low high rest = b :: takeTails n 0x80 0xBF rest' ∧
      (takeTails n 0x80 0xBF rest').length = n := by
  cases rest with
  | nil => simp [takeTails] at h
  | cons b rest =>
    rw [takeTails] at h ⊢
    by_cases hb : low ≤ b ∧ b ≤ high
    · rw [if_pos hb, List.length_cons] at h
      rw [if_pos hb]
      exact ⟨b, rest, UInt8.le_iff_toNat_le.mp hb.1, UInt8.le_iff_toNat_le.mp hb.2, rfl,
        Nat.succ.inj h⟩
    · rw [if_neg hb] at h
      cases h

/-- The number of a character that was made of a number. -/
theorem toNat_ofNat {n : Nat} (h : n.isValidChar) : (Char.ofNat n).toNat = n := by
  rw [Char.ofNat, dif_pos h]
  rfl

/-- What a byte beyond ASCII promises.  The bounds keep out what has a shorter form, surrogates and
what is too large. -/
theorem Lead.of?_eq_some {b : UInt8} {lead : Lead} (hb : 128 ≤ b.toNat)
    (h : Lead.of? b = some lead) :
    (128 ≤ lead.low.toNat ∧ lead.high.toNat ≤ 191) ∧
      (lead.tails = 1 ∧ 2 ≤ lead.bits ∧ lead.bits < 32 ∨
      lead.tails = 2 ∧ lead.bits < 16 ∧ (lead.bits = 0 → lead.low.toNat = 160) ∧
        (lead.bits = 13 → lead.high.toNat = 159) ∨
      lead.tails = 3 ∧ lead.bits < 5 ∧ (lead.bits = 0 → lead.low.toNat = 144) ∧
        (lead.bits = 4 → lead.high.toNat = 143)) := by
  rw [Lead.of?] at h
  simp only [UInt8.lt_iff_toNat_lt, ← UInt8.toNat_inj, UInt8.reduceToNat] at h
  rw [if_neg (by omega)] at h
  split at h
  · cases h
  · split at h
    · cases h
      simp
      omega
    · split at h
      · cases h
        simp
        split <;> split <;> simp <;> omega
      · split at h
        · cases h
          simp
          split <;> split <;> simp <;> omega
        · cases h

/-- A character of more than one byte is not an ASCII character. -/
theorem le_toNat_characterOf {b : UInt8} {lead : Lead} {rest : Bytes} (hb : 128 ≤ b.toNat)
    (hlead : Lead.of? b = some lead)
    (h : (takeTails lead.tails lead.low lead.high rest).length = lead.tails) :
    128 ≤ (characterOf lead (takeTails lead.tails lead.low lead.high rest)).toNat := by
  have hbyte : (0x80 : UInt8).toNat = 128 ∧ (0xBF : UInt8).toNat = 191 := by decide
  obtain ⟨hrange, ⟨htails, hbits⟩ | ⟨htails, hbits⟩ | ⟨htails, hbits⟩⟩ :=
    Lead.of?_eq_some hb hlead
  · -- Two bytes: the bits of the first are those of 128 at least.
    rw [htails] at h ⊢
    obtain ⟨b₁, rest₁, hlow, hhigh, heq, -⟩ := takeTails_of_length h
    rw [heq, characterOf]
    simp only [takeTails, List.foldl_cons, List.foldl_nil]
    rw [toNat_ofNat (.inl (by omega))]
    omega
  · -- Three bytes: the range of the second one keeps the number out of the surrogates.
    rw [htails] at h ⊢
    obtain ⟨b₁, rest₁, hlow, hhigh, heq, h₁⟩ := takeTails_of_length h
    obtain ⟨b₂, rest₂, hlow₂, hhigh₂, heq₂, -⟩ := takeTails_of_length h₁
    rw [heq, heq₂, characterOf]
    simp only [takeTails, List.foldl_cons, List.foldl_nil]
    rw [toNat_ofNat (by rw [Nat.isValidChar]; omega)]
    omega
  · -- Four bytes: it keeps the number below the end of the characters.
    rw [htails] at h ⊢
    obtain ⟨b₁, rest₁, hlow, hhigh, heq, h₁⟩ := takeTails_of_length h
    obtain ⟨b₂, rest₂, hlow₂, hhigh₂, heq₂, h₂⟩ := takeTails_of_length h₁
    obtain ⟨b₃, rest₃, hlow₃, hhigh₃, heq₃, -⟩ := takeTails_of_length h₂
    rw [heq, heq₂, heq₃, characterOf]
    simp only [takeTails, List.foldl_cons, List.foldl_nil]
    rw [toNat_ofNat (by rw [Nat.isValidChar]; omega)]
    omega

/-- A byte beyond ASCII starts a character beyond ASCII, or one that replaces it. -/
theorem exists_decodeLossy_of_le {b : UInt8} (hb : 128 ≤ b.toNat) (rest : Bytes) :
    ∃ c text, decodeLossy (b :: rest) = c :: text ∧ 128 ≤ c.toNat := by
  have hreplacement : 128 ≤ replacement.toNat := by decide
  rw [decodeLossy]
  cases hlead : Lead.of? b with
  | none => exact ⟨_, _, rfl, hreplacement⟩
  | some lead =>
    refine ⟨_, _, rfl, ?_⟩
    split
    · next h => exact le_toNat_characterOf hb hlead h
    · exact hreplacement

/-- **An ASCII text is decoded from its own bytes only.** -/
theorem eq_of_decodeLossy {token text : Bytes} (htext : ∀ b ∈ text, b.toNat < 128)
    (h : decodeLossy token = decodeLossy text) : token = text := by
  have hascii : ∀ {b : UInt8}, b.toNat < 128 → (Char.ofNat b.toNat).toNat = b.toNat :=
    fun hb => toNat_ofNat (.inl (by omega))
  induction text generalizing token with
  | nil =>
    cases token with
    | nil => rfl
    | cons b rest =>
      rw [decodeLossy, decodeLossy] at h
      split at h <;> cases h
  | cons b text ih =>
    have hb := htext b List.mem_cons_self
    rw [decodeLossy_cons_of_lt (UInt8.lt_iff_toNat_lt.mpr hb)] at h
    cases token with
    | nil =>
      rw [decodeLossy] at h
      cases h
    | cons b' token =>
      by_cases hb' : b'.toNat < 128
      · rw [decodeLossy_cons_of_lt (UInt8.lt_iff_toNat_lt.mpr hb')] at h
        obtain ⟨hhead, htail⟩ := List.cons.inj h
        have hnat := congrArg Char.toNat hhead
        rw [hascii hb', hascii hb] at hnat
        rw [UInt8.toNat_inj.mp hnat, ih (fun c hc => htext c (List.mem_cons_of_mem _ hc)) htail]
      · -- The first character would lie beyond ASCII.
        obtain ⟨c, rest, hrest, hc⟩ := exists_decodeLossy_of_le (Nat.le_of_not_lt hb') token
        rw [hrest] at h
        have hnat := congrArg Char.toNat (List.cons.inj h).1
        rw [hascii hb] at hnat
        omega

end Text

/-! ### Integers -/

namespace Numeral

/-- One digit or more. -/
def Run (ds : Bytes) : Prop := ds ≠ [] ∧ ∀ d ∈ ds, 48 ≤ d.toNat ∧ d.toNat ≤ 57

/-- The number that digits stand for, the last of them for ones, the one before it for tens. -/
def place (ds : Bytes) : Nat := Nat.ofDigits 10 (ds.reverse.map fun d => d.toNat - 48)

/-- A text is an optional sign and digits, and stands for this integer. -/
inductive Denotes : Bytes → Int → Prop
  | unsigned {ds : Bytes} (h : Run ds) : Denotes ds (place ds)
  | plus {ds : Bytes} (h : Run ds) : Denotes (43 :: ds) (place ds)
  | minus {ds : Bytes} (h : Run ds) : Denotes (45 :: ds) (-place ds)

theorem value_eq_place (ds : Bytes) : value ds = place ds := by
  induction ds using List.reverseRecOn with
  | nil => rfl
  | append_singleton ds d ih =>
    rw [value_append_digit, ih, place, place, List.reverse_append, List.reverse_singleton,
      List.singleton_append, List.map_cons, Nat.ofDigits_cons, digitValue, Nat.add_comm]

theorem run_iff {ds : Bytes} : Run ds ↔ ds ≠ [] ∧ ds.all isDigit = true := by
  simp [Run, isDigit, UInt8.le_iff_toNat_le]

/-- A text is in the grammar if a run of digits is left when its sign is taken off. -/
theorem denotes_iff {text : Bytes} {n : Int} :
    Denotes text n ↔ Run (splitSign text).2 ∧
      n = if (splitSign text).1 then -(place (splitSign text).2 : Int)
        else place (splitSign text).2 := by
  constructor
  · intro h
    cases h with
    | unsigned h =>
      rw [splitSign_of_all (run_iff.mp h).2]
      exact ⟨h, rfl⟩
    | plus h => exact ⟨h, rfl⟩
    | minus h => exact ⟨h, rfl⟩
  · rintro ⟨hrun, rfl⟩
    cases text with
    | nil => exact absurd rfl hrun.1
    | cons b rest =>
      rw [splitSign] at hrun ⊢
      by_cases hminus : b = 45
      · rw [if_pos hminus] at hrun ⊢
        rw [hminus]
        exact .minus hrun
      · rw [if_neg hminus] at hrun ⊢
        by_cases hplus : b = 43
        · rw [if_pos hplus] at hrun ⊢
          rw [hplus]
          exact .plus hrun
        · rw [if_neg hplus] at hrun ⊢
          exact .unsigned hrun

theorem Denotes.unique {text : Bytes} {n k : Int} (h : Denotes text n) (h' : Denotes text k) :
    k = n := by
  rw [denotes_iff] at h h'
  rw [h.2, h'.2]

/-- No byte of a numeral comes after the digits. -/
theorem Denotes.toNat_le {text : Bytes} {n : Int} (h : Denotes text n) :
    ∀ b ∈ text, b.toNat ≤ 57 := by
  cases h with
  | unsigned h => exact fun b hb => (h.2 b hb).2
  | plus h => simpa using fun b hb => (h.2 b hb).2
  | minus h => simpa using fun b hb => (h.2 b hb).2

/-- **An integer is read from a text that stands for it**, and from no other. -/
theorem readInteger?_eq_some_iff {text : Bytes} {w : Word} :
    readInteger? text = some w ↔ Denotes text w.toInt := by
  rw [denotes_iff, run_iff, readInteger?]
  dsimp only
  rw [value_eq_place]
  by_cases hrun : (splitSign text).2 ≠ [] ∧ (splitSign text).2.all isDigit = true
  · rw [if_pos hrun]
    constructor
    · intro h
      exact ⟨hrun, Word.toInt_of_ofInt? h⟩
    · -- A word is in the range that is checked last.
      rintro ⟨-, h⟩
      rw [← h, Word.ofInt?, if_pos ⟨w.le_toInt, w.toInt_le⟩, Int32.ofInt_toInt]
  · rw [if_neg hrun]
    exact ⟨fun h => absurd h (by simp), fun h => absurd h.1 hrun⟩

/-- Every number in the range of words is a word. -/
theorem exists_readInteger? {text : Bytes} {n : Int} (h : Denotes text n) (hlow : -2147483648 ≤ n)
    (hhigh : n ≤ 2147483647) : ∃ w, readInteger? text = some w ∧ w.toInt = n := by
  have hint : (Int32.ofInt n).toInt = n := Int32.toInt_ofInt_of_le hlow (by omega)
  exact ⟨Int32.ofInt n, readInteger?_eq_some_iff.mpr (hint.symm ▸ h), hint⟩

end Numeral

/-! ### Truth values -/

namespace Input

/-- A token stands for an integer that is in the range of words. -/
def NamesInteger (token : Bytes) (n : Int) : Prop :=
  Numeral.Denotes token n ∧ -2147483648 ≤ n ∧ n ≤ 2147483647

/-- A token stands for a truth value: it is `true`, `false` or an integer that is or is not zero. -/
def NamesTruth (token : Bytes) (n : Int) : Prop :=
  token = [116, 114, 117, 101] ∧ n = 1 ∨ token = [102, 97, 108, 115, 101] ∧ n = 0 ∨
    ∃ k, NamesInteger token k ∧ n = if k = 0 then 0 else 1

variable {token : Bytes} {w : Word} {n : Int}

theorem namesInteger_iff (h : Numeral.readInteger? token = some w) :
    NamesInteger token n ↔ n = w.toInt := by
  have hdenotes := Numeral.readInteger?_eq_some_iff.mp h
  constructor
  · rintro ⟨hn, -⟩
    exact hdenotes.unique hn
  · rintro rfl
    exact ⟨hdenotes, w.le_toInt, w.toInt_le⟩

theorem not_namesInteger (h : Numeral.readInteger? token = none) : ¬ NamesInteger token n := by
  rintro ⟨hn, hlow, hhigh⟩
  obtain ⟨w, hw, -⟩ := Numeral.exists_readInteger? hn hlow hhigh
  cases h.symm.trans hw

/-- The two words are no integers. -/
theorem not_namesInteger_of_word (h : token = trueText ∨ token = falseText) :
    ¬ NamesInteger token n := by
  rintro ⟨hn, -⟩
  rcases h with rfl | rfl
  · exact absurd (hn.toNat_le 116 (by decide)) (by decide)
  · exact absurd (hn.toNat_le 102 (by decide)) (by decide)

/-- **What names a truth value is an ASCII text**, so that no other token is decoded to it. -/
theorem NamesTruth.eq_of_decodeLossy (h : NamesTruth token n) {token' : Bytes}
    (hdecode : Text.decodeLossy token' = Text.decodeLossy token) : token' = token := by
  refine Text.eq_of_decodeLossy ?_ hdecode
  rcases h with ⟨rfl, -⟩ | ⟨rfl, -⟩ | ⟨k, ⟨hk, -⟩, -⟩
  · simp
  · simp
  · intro b hb
    have hle := hk.toNat_le b hb
    omega

end Input

/-! ### Calls -/

/-- How a read ends that has made this of its token. -/
def Completion.ofInput : Except InputFailure Word → Completion
  | .ok v => .ofValue v
  | .error e => .failed e.status

theorem Intrinsic.exists_complete (i : Intrinsic) (result : Except InputFailure Word) (w : World) :
    ∃ journal, complete i result w = .ok (.ofInput result) { w with journal } := by
  cases result with
  | ok v => exact ⟨w.journal, rfl⟩
  | error e => exact ⟨w.journal.push (.readFailed i e), rfl⟩

/-- **A call that reads is answered with what is made of the token.** -/
theorem Machine.Poised.call_read {g : Growth} {size k : Nat} {m : Machine} {i : Intrinsic}
    (h : m.Poised g size k) (hallowed : m.config.capabilities.allows i = true)
    {parse : Bytes → Except InputFailure Word}
    (hi : i.body = World.onStore (Store.frameLoad Frame.argumentOffset) >>= fun _ =>
      Intrinsic.read i fun token => return parse token)
    {token : Bytes} {source : Source}
    (hnext : m.console.source.nextToken = .ok (some token) source) (fuel : Nat)
    (argument : Word) :
    ∃ m', m.call fuel (.intrinsic i) argument =
      some (.ok (answer argument (.ofInput (parse token))) m') := by
  have hbody : ∀ w : World, w.console = m.console →
      Store.frameLoad Frame.argumentOffset w.store = .ok argument w.store →
      ∃ journal, i.body w = .ok (.ofInput (parse token))
        { w with console := { m.console with source }, journal } := by
    intro w hw hargument
    have hflush : w.console.sink.flushFailure = none := by rw [hw, h.flush]
    rw [← hw] at hnext ⊢
    rw [hi, Action.bind_of_ok (Intrinsic.onStore_argument hargument),
      Intrinsic.read_of_some hflush hnext]
    exact Intrinsic.exists_complete i (parse token) _
  obtain ⟨m', hcall, -⟩ := h.call_of_body hallowed hbody h.flush fuel
  exact ⟨m', hcall⟩

/-- A record gives the number that a token stands for, or says that it stands for none. -/
structure CallRecord.Gives (record : CallRecord) (stands : Int → Prop) : Prop where
  status_eq_ok_iff : record.status = .ok ↔ ∃ n, stands n
  toInt_value : ∀ n, stands n → record.value.toInt = n
  refused : (¬ ∃ n, stands n) → record.status = .inputFormat ∧ record.value = 0

section

variable {argument : Word} {token : Bytes} {stands : Int → Prop}

theorem gives_ok {w : Word} (h : ∀ n, stands n ↔ n = w.toInt) :
    (Machine.answer argument (.ofInput (.ok w))).Gives stands where
  status_eq_ok_iff := ⟨fun _ => ⟨w.toInt, (h _).mpr rfl⟩, fun _ => rfl⟩
  toInt_value := fun n hn => ((h n).mp hn).symm
  refused := fun hnone => absurd ⟨w.toInt, (h _).mpr rfl⟩ hnone

theorem gives_format {kind : InputKind} (h : ∀ n, ¬ stands n) :
    (Machine.answer argument (.ofInput (.error (.format token kind)))).Gives stands where
  status_eq_ok_iff := by
    have hstatus : (Machine.answer argument (.ofInput (.error (.format token kind)))).status =
        .inputFormat := rfl
    simp [hstatus, h]
  toInt_value := fun n hn => absurd hn (h n)
  refused := fun _ => ⟨rfl, rfl⟩

/-- **A read of an integer gives what the token names.** -/
theorem gives_integer : (Machine.answer argument (.ofInput (Input.integer token))).Gives
    (Input.NamesInteger token) := by
  rw [Input.integer]
  cases hread : Numeral.readInteger? token with
  | none => exact gives_format fun n => Input.not_namesInteger hread
  | some w => exact gives_ok fun n => Input.namesInteger_iff hread

/-- **A read of a truth value gives what the token names.** -/
theorem gives_boolean : (Machine.answer argument (.ofInput (Input.boolean token))).Gives
    (Input.NamesTruth token) := by
  rw [Input.boolean]
  by_cases htrue : token = Input.trueText
  · rw [if_pos htrue]
    refine gives_ok fun n => ⟨?_, fun hn => .inl ⟨htrue, hn⟩⟩
    rintro (⟨-, hn⟩ | ⟨hfalse, -⟩ | ⟨k, hk, -⟩)
    · exact hn
    · exact absurd (htrue.symm.trans hfalse) (by decide)
    · exact absurd hk (Input.not_namesInteger_of_word (.inl htrue))
  rw [if_neg htrue]
  by_cases hfalse : token = Input.falseText
  · rw [if_pos hfalse]
    refine gives_ok fun n => ⟨?_, fun hn => .inr (.inl ⟨hfalse, hn⟩)⟩
    rintro (⟨htrue, -⟩ | ⟨-, hn⟩ | ⟨k, hk, -⟩)
    · exact absurd (hfalse.symm.trans htrue) (by decide)
    · exact hn
    · exact absurd hk (Input.not_namesInteger_of_word (.inr hfalse))
  rw [if_neg hfalse]
  -- The token is neither of the two words, so it has to be an integer.
  have hnames : ∀ n, Input.NamesTruth token n ↔
      ∃ k, Input.NamesInteger token k ∧ n = if k = 0 then 0 else 1 := by
    intro n
    exact ⟨fun h => (h.resolve_left fun h => htrue h.1).resolve_left fun h => hfalse h.1,
      fun h => .inr (.inr h)⟩
  cases hread : Numeral.readInteger? token with
  | none =>
    refine gives_format fun n hn => ?_
    obtain ⟨k, hk, -⟩ := (hnames n).mp hn
    exact Input.not_namesInteger hread hk
  | some w =>
    have htruth : (Word.ofBool (w ≠ 0)).toInt = if w.toInt = 0 then 0 else 1 := by
      by_cases hw : w = 0
      · rw [hw]
        decide
      · have hint : w.toInt ≠ 0 := fun h => hw (Int32.toInt_inj.mp h)
        rw [if_neg hint, Word.ofBool, decide_eq_true hw]
        rfl
    refine gives_ok fun n => ?_
    simp only [hnames, Input.namesInteger_iff hread, exists_eq_left, htruth]

end

/-- **The grammar of integers and truth values.**  Take a machine with a register, room for a frame
and a sink that can be flushed, that may read.  Its stream holds bytes, cut into segments anywhere,
and the first word of them is the token.

A call that reads an integer comes back, with status `ok` exactly if the token is an optional sign
and one or more digits that stand for a number in the range of words, and then with this number.  A
call that reads a truth value comes back, with status `ok` exactly if the token is `true`, `false`
or such an integer, and then with one, zero, or whether the integer is not zero.  Otherwise the
status says that the token is malformed, and the value is zero.  No token but itself is decoded to
the text of one that is accepted, even if bytes that are not well formed are replaced. -/
theorem reads_accept_the_grammar {c : Config} {built : Store} {m : Machine} {text token : Bytes}
    (hbuilt : Store.ofConfig c = .ok built) (hshape : m.store.shape = built.shape)
    (hsp : m.store.InBounds) (hregister : 0 < m.store.registers.size)
    (hroom : m.store.depth + 3 ≤ m.store.memory.size)
    (hinput : m.config.capabilities.contains .input = true)
    (hflush : m.console.sink.flushFailure = none) (htext : m.console.source.Holds text)
    (htoken : (words text).head? = some token) (fuel : Nat) (argument : Word) :
    (∃ record m', m.call fuel (.intrinsic .readInteger) argument = some (.ok record m') ∧
      record.Gives (Input.NamesInteger token)) ∧
    (∃ record m', m.call fuel (.intrinsic .readBoolean) argument = some (.ok record m') ∧
      record.Gives (Input.NamesTruth token)) ∧
    ∀ token', (∃ n, Input.NamesInteger token n ∨ Input.NamesTruth token n) →
      Text.decodeLossy token' = Text.decodeLossy token → token' = token := by
  have hpoised := Machine.poised_of_inBounds hbuilt hshape hsp hregister hroom hflush
  have hallowed : ∀ i, i = .readInteger ∨ i = .readBoolean →
      m.config.capabilities.allows i = true := by
    rintro i (rfl | rfl) <;> simp [CapabilitySet.allows, Intrinsic.needs, hinput]
  obtain ⟨source, -, hnext, -⟩ := htext.nextToken
  rw [htoken] at hnext
  refine ⟨?_, ?_, ?_⟩
  · obtain ⟨m', hcall⟩ := hpoised.call_read (hallowed _ (.inl rfl)) rfl hnext fuel argument
    exact ⟨_, m', hcall, gives_integer⟩
  · obtain ⟨m', hcall⟩ := hpoised.call_read (hallowed _ (.inr rfl)) rfl hnext fuel argument
    exact ⟨_, m', hcall, gives_boolean⟩
  · rintro token' ⟨n, hn | hn⟩ hdecode
    · exact Input.NamesTruth.eq_of_decodeLossy (.inr (.inr ⟨n, hn, rfl⟩)) hdecode
    · exact hn.eq_of_decodeLossy hdecode

/-- A machine with just room for a frame, before a token that is cut after its first byte. -/
def tokenMachine (token : Bytes) : Machine where
  store := ⟨.ofSize 1, .ofSize 3, .ofCapacity .upward 3, 0, .zero⟩
  console := { source := .ofSegments [.bytes (token.take 1), .bytes (token.drop 1)] }
  config := { registers := 1, memory := 3, capabilities := { input := true } }
  program := ⟨⟨0⟩, #[⟨[], .halt⟩], []⟩

/-- The least word in decimal, with a zero in front. -/
def paddedLeast : Bytes := [45, 48, 50, 49, 52, 55, 52, 56, 51, 54, 52, 56]

/-- The least word is accepted, a digit before a byte that is not well formed is refused. -/
theorem least_word_is_accepted_and_odd_byte_refused :
    (∃ record m', (tokenMachine paddedLeast).call 0 (.intrinsic .readInteger) 7 =
        some (.ok record m') ∧
      record.status = .ok ∧ record.value.toInt = -2147483648) ∧
    ∃ record m',
      (tokenMachine [49, 255]).call 0 (.intrinsic .readBoolean) 7 = some (.ok record m') ∧
      record.status = .inputFormat ∧ record.value = 0 := by
  refine ⟨?_, ?_⟩
  · have hrun : Numeral.Run paddedLeast.tail := by simp [Numeral.Run, paddedLeast]
    have hplace : -(Numeral.place paddedLeast.tail : Int) = -2147483648 := by decide +kernel
    have hnames : Input.NamesInteger paddedLeast (-2147483648) := by
      refine ⟨?_, by decide, by decide⟩
      rw [← hplace]
      exact .minus hrun
    have hbuilt : Store.ofConfig (tokenMachine paddedLeast).config =
        .ok (tokenMachine paddedLeast).store := rfl
    have htext : (tokenMachine paddedLeast).console.source.Holds paddedLeast :=
      ⟨[paddedLeast.take 1, paddedLeast.drop 1], by simp [paddedLeast], rfl, rfl⟩
    have htoken : (words paddedLeast).head? = some paddedLeast := by decide +kernel
    obtain ⟨⟨record, m', hcall, hgives⟩, -⟩ := reads_accept_the_grammar hbuilt rfl
      (by decide +kernel) (by decide) (by decide +kernel) rfl rfl htext htoken 0 7
    exact ⟨record, m', hcall, hgives.status_eq_ok_iff.mpr ⟨_, hnames⟩, hgives.toInt_value _ hnames⟩
  · have hnames : ¬ ∃ n, Input.NamesTruth [49, 255] n := by
      rintro ⟨n, ⟨htrue, -⟩ | ⟨hfalse, -⟩ | ⟨k, ⟨hk, -⟩, -⟩⟩
      · exact absurd htrue (by decide)
      · exact absurd hfalse (by decide)
      · exact absurd (hk.toNat_le 255 (by decide)) (by decide)
    have hbuilt : Store.ofConfig (tokenMachine [49, 255]).config =
        .ok (tokenMachine [49, 255]).store := rfl
    have htext : (tokenMachine [49, 255]).console.source.Holds [49, 255] :=
      ⟨[[49], [255]], by simp, rfl, rfl⟩
    have htoken : (words [49, 255]).head? = some [49, 255] := by decide +kernel
    obtain ⟨-, ⟨record, m', hcall, hgives⟩, -⟩ := reads_accept_the_grammar hbuilt rfl
      (by decide +kernel) (by decide) (by decide +kernel) rfl rfl htext htoken 0 7
    exact ⟨record, m', hcall, hgives.refused hnames⟩

end WordMachine

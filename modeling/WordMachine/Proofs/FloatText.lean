/-
What single-precision numbers are printed as.

A finite number is a rational number.  Its text has six decimals and stands for the multiple of a
millionth that is nearest to it, or for the even one of two.  So the texts are ordered as the
numbers are, as far as they can be told apart.

* `Single.exact`: the number that a pattern stands for, from its three fields;
* `Single.Fixed`: texts with six decimals, with their sign and the number of millionths, which
  `Single.Fixed.unique` says are determined by the text;
* `Single.fixed_text` and `Single.nearest_millionths`: the form of the text that is printed, and how
  far it is from the number;
* `printed_numbers_are_rounded`.
-/
import Mathlib.Tactic.FieldSimp
import Mathlib.Tactic.Positivity
import Mathlib.Tactic.Ring
import WordMachine.Proofs.Grammar
import WordMachine.Proofs.Rounding
import WordMachine.Single.Text

namespace WordMachine

/-! ### Digits -/

namespace Numeral

theorem length_paddedDigits (width n : Nat) : (paddedDigits width n).length = width := by
  induction width generalizing n with
  | zero => rfl
  | succ width ih => simp [paddedDigits, ih]

theorem all_isDigit_paddedDigits (width n : Nat) :
    (paddedDigits width n).all isDigit = true := by
  induction width generalizing n with
  | zero => rfl
  | succ width ih => simp [paddedDigits, ih, isDigit_digit (Nat.mod_lt n (by omega : 0 < 10))]

/-- Digits of a fixed number, after others. -/
theorem value_append_paddedDigits (ds : Bytes) (width n : Nat) :
    value (ds ++ paddedDigits width n) = value ds * 10 ^ width + n % 10 ^ width := by
  induction width generalizing n with
  | zero => simp [paddedDigits, Nat.mod_one]
  | succ width ih =>
    rw [paddedDigits, ← List.append_assoc, value_append_digit, ih,
      digitValue_digit (Nat.mod_lt n (by omega)), Nat.pow_succ', Nat.mod_mul]
    ring

theorem run_digits (n : Nat) : Run (digits n) := run_iff.mpr ⟨digits_ne_nil n, all_isDigit_digits n⟩

end Numeral

/-! ### Numbers and patterns -/

namespace Single

/-- The size of the number that a finite pattern stands for. -/
def exactSize (x : Single) : ℚ :=
  if x.exponent = 0 then x.fraction / 2 ^ 23 * 2 ^ (-126 : ℤ)
  else (1 + x.fraction / 2 ^ 23) * 2 ^ (x.exponent - 127 : ℤ)

/-- The number that a finite pattern stands for. -/
def exact (x : Single) : ℚ := if x.isNegative then -x.exactSize else x.exactSize

theorem exactSize_eq (x : Single) :
    x.exactSize = (x.significand * 2 ^ x.scale : ℕ) / (2 ^ 149 : ℕ) := by
  rw [exactSize, significand, scale]
  cases hexponent : x.exponent with
  | zero =>
    -- A subnormal number has the scale of the least exponent and no leading bit.
    have hpower : (2 : ℚ) ^ (-126 : ℤ) = 1 / 2 ^ 126 := by
      rw [zpow_neg, one_div]
      rfl
    rw [if_pos rfl, if_pos rfl, hpower]
    push_cast
    field_simp
    ring
  | succ e =>
    have hpower : (2 : ℚ) ^ ((e + 1 : ℕ) - 127 : ℤ) = 2 ^ e / 2 ^ 126 := by
      have hint : ((e + 1 : ℕ) - 127 : ℤ) = e - 126 := by omega
      rw [hint, zpow_sub₀ two_ne_zero, zpow_natCast]
      rfl
    rw [if_neg (Nat.succ_ne_zero e), if_neg (Nat.succ_ne_zero e), hpower, Nat.add_sub_cancel]
    push_cast
    field_simp
    ring

theorem exactSize_nonneg (x : Single) : 0 ≤ x.exactSize := by
  rw [exactSize_eq]
  positivity

theorem abs_exact (x : Single) : |x.exact| = x.exactSize := by
  rw [exact]
  split
  · rw [abs_neg, abs_of_nonneg x.exactSize_nonneg]
  · rw [abs_of_nonneg x.exactSize_nonneg]

/-- **A number is printed as the nearest multiple of a millionth.** -/
theorem nearest_millionths (x : Single) :
    Rounding.Nearest (1 / 1000000) x.exactSize x.millionths := by
  have hunit : (0 : ℚ) < 1 / 1000000 := by norm_num
  have hsize : x.exactSize = (x.significand * 2 ^ x.scale * 1000000 : ℕ) / (2 ^ 149 : ℕ) *
      (1 / 1000000) := by
    rw [exactSize_eq]
    push_cast
    ring
  rw [hsize]
  exact Rounding.nearest_nearestEven hunit _ (Nat.two_pow_pos 149)

/-! ### Texts -/

/-- A text is a sign, a whole part without superfluous zeros, a point and six digits.  Without the
point, the digits stand for a number of millionths. -/
def Fixed (text : Bytes) (negative : Bool) (n : ℕ) : Prop :=
  ∃ whole decimals : Bytes,
    text = (if negative then [45] else []) ++ (whole ++ 46 :: decimals) ∧ Numeral.Run whole ∧
      (whole.head? = some 48 → whole = [48]) ∧ Numeral.Run decimals ∧ decimals.length = 6 ∧
      Numeral.place (whole ++ decimals) = n

/-- The number that such a text stands for. -/
def signed (negative : Bool) (n : ℕ) : ℚ := if negative then -(n / 1000000) else n / 1000000

/-- The sign shows at the front. -/
theorem Fixed.head?_eq_minus_iff {text : Bytes} {negative : Bool} {n : ℕ}
    (h : Fixed text negative n) : text.head? = some 45 ↔ negative = true := by
  obtain ⟨whole, decimals, rfl, hwhole, -⟩ := h
  cases negative with
  | true => simp
  | false =>
    obtain ⟨d, ds, rfl⟩ := List.exists_cons_of_ne_nil hwhole.1
    have hd := (hwhole.2 d List.mem_cons_self).1
    have hne : d ≠ 45 := by
      rintro rfl
      exact absurd hd (by decide)
    simp [hne]

/-- A text has one sign and one number of millionths. -/
theorem Fixed.unique {text : Bytes} {negative negative' : Bool} {n n' : ℕ}
    (h : Fixed text negative n) (h' : Fixed text negative' n') : negative' = negative ∧ n' = n := by
  obtain rfl : negative' = negative := by
    rw [Bool.eq_iff_iff, ← h.head?_eq_minus_iff, h'.head?_eq_minus_iff]
  obtain ⟨whole, decimals, rfl, -, -, -, hlength, rfl⟩ := h
  obtain ⟨whole', decimals', htext, -, -, -, hlength', rfl⟩ := h'
  -- The point is in the same place, since six digits follow it.
  obtain ⟨hwhole, hdecimals⟩ := List.append_inj' (List.append_cancel_left htext) (by simp [*])
  rw [hwhole, (List.cons.inj hdecimals).2]
  exact ⟨rfl, rfl⟩

theorem text_of_finite {x : Single} (h : x.isFinite = true) :
    x.text = (if x.isNegative then [45] else []) ++ decimal x.millionths := by
  have hmagnitude : x.magnitude < infinity := by simpa [isFinite] using h
  have hunsigned : x.unsignedText = decimal x.millionths := by
    have hnan : x.isNaN = false := by simp [isNaN, hmagnitude.le]
    have hinfinite : x.isInfinite = false := by simp [isInfinite, hmagnitude.ne]
    rw [unsignedText, hnan, hinfinite]
    simp
  by_cases hneg : x.isNegative = true
  · rw [text, hunsigned, if_pos hneg, if_pos hneg, List.singleton_append]
  · rw [text, hunsigned, if_neg hneg, if_neg hneg, List.nil_append]

/-- **The text of a finite number has six decimals.** -/
theorem fixed_text {x : Single} (h : x.isFinite = true) :
    Fixed x.text x.isNegative x.millionths := by
  refine ⟨_, _, text_of_finite h, Numeral.run_digits _, Numeral.eq_zero_of_head?_digits, ?_,
    Numeral.length_paddedDigits _ _, ?_⟩
  · have hlength := Numeral.length_paddedDigits 6 x.millionths
    refine Numeral.run_iff.mpr ⟨?_, Numeral.all_isDigit_paddedDigits _ _⟩
    intro hnil
    rw [hnil] at hlength
    cases hlength
  · rw [← Numeral.value_eq_place, Numeral.value_append_paddedDigits, Numeral.value_digits]
    omega

theorem millionths_mono {x y : Single} (h : x.exactSize ≤ y.exactSize) :
    x.millionths ≤ y.millionths := by
  have hunit : (0 : ℚ) < 1 / 1000000 := by norm_num
  exact_mod_cast x.nearest_millionths.mono hunit y.nearest_millionths h

/-- Zero is printed as zero. -/
theorem millionths_of_le_zero {x : Single} (h : x.exactSize ≤ 0) : x.millionths = 0 := by
  have hunit : (0 : ℚ) < 1 / 1000000 := by norm_num
  have hle := x.nearest_millionths.mono hunit (Rounding.nearest_zero _) h
  omega

/-- **Larger numbers have texts that do not stand for less.** -/
theorem signed_mono {x y : Single} (h : x.exact ≤ y.exact) :
    signed x.isNegative x.millionths ≤ signed y.isNegative y.millionths := by
  have hcast : ∀ {n k : ℕ}, n ≤ k → (n : ℚ) / 1000000 ≤ k / 1000000 := by
    intro n k hle
    exact div_le_div_of_nonneg_right (by exact_mod_cast hle) (by norm_num)
  have hnonneg : ∀ n : ℕ, (0 : ℚ) ≤ n / 1000000 := fun n => by positivity
  have hx := x.exactSize_nonneg
  have hy := y.exactSize_nonneg
  rw [exact, exact] at h
  rw [signed, signed]
  split at h
  · next hxneg =>
    rw [if_pos hxneg]
    split at h
    · next hyneg =>
      rw [if_pos hyneg]
      exact neg_le_neg (hcast (millionths_mono (by linarith)))
    · next hyneg =>
      rw [if_neg hyneg]
      exact (neg_nonpos.mpr (hnonneg _)).trans (hnonneg _)
  · next hxneg =>
    rw [if_neg hxneg]
    split at h
    · next hyneg =>
      -- Neither is less than the other only if both are zero.
      rw [if_pos hyneg, millionths_of_le_zero (by linarith : x.exactSize ≤ 0),
        millionths_of_le_zero (by linarith : y.exactSize ≤ 0)]
      norm_num
    · next hyneg =>
      rw [if_neg hyneg]
      exact hcast (millionths_mono h)

end Single

/-- **Printed numbers are correctly rounded.**  Take a word that holds the pattern of a finite
number.  Its text has a minus sign exactly if the sign bit is set, a whole part without superfluous
zeros, a point and six digits.  It stands for the multiple of a millionth that is nearest to the
size of the number, and for the even one if two are equally near.  And of two such words, the one
that holds the larger number has no text that stands for less. -/
theorem printed_numbers_are_rounded :
    (∀ w : Word, (Single.ofWord w).isFinite = true →
      ∃ n, Single.Fixed (Single.ofWord w).text (Single.ofWord w).isNegative n ∧
        Rounding.Nearest (1 / 1000000) |(Single.ofWord w).exact| n) ∧
    ∀ (w w' : Word) (negative negative' : Bool) (n n' : ℕ),
      (Single.ofWord w).isFinite = true → (Single.ofWord w').isFinite = true →
      Single.Fixed (Single.ofWord w).text negative n →
      Single.Fixed (Single.ofWord w').text negative' n' →
      (Single.ofWord w).exact ≤ (Single.ofWord w').exact →
      Single.signed negative n ≤ Single.signed negative' n' := by
  refine ⟨fun w hw => ⟨(Single.ofWord w).millionths, Single.fixed_text hw, ?_⟩, ?_⟩
  · rw [Single.abs_exact]
    exact (Single.ofWord w).nearest_millionths
  · intro w w' negative negative' n n' hw hw' hfixed hfixed' hle
    obtain ⟨rfl, rfl⟩ := (Single.fixed_text hw).unique hfixed
    obtain ⟨rfl, rfl⟩ := (Single.fixed_text hw').unique hfixed'
    exact Single.signed_mono hle

/-- The number `-1 / 128` lies half way between two millionths and is printed as `-0.007812`.  It is
less than negative zero, which is printed as `-0.000000`. -/
theorem half_millionths_are_printed_even :
    Rounding.Nearest (1 / 1000000) |(Single.ofWord (-1140850688)).exact| 7812 ∧
      |(Single.ofWord (-1140850688)).exact| = 1 / 128 ∧
      Single.signed true 7812 ≤ Single.signed true 0 := by
  have htext : (Single.ofWord (-1140850688)).text = [45, 48, 46, 48, 48, 55, 56, 49, 50] := by
    decide +kernel
  have hfixed : Single.Fixed (Single.ofWord (-1140850688)).text true 7812 :=
    ⟨[48], [48, 48, 55, 56, 49, 50], htext, by simp [Numeral.Run], by simp,
      by simp [Numeral.Run], rfl, by decide +kernel⟩
  have hzerotext : (Single.ofWord (-2147483648)).text = [45, 48, 46, 48, 48, 48, 48, 48, 48] := by
    decide +kernel
  have hzero : Single.Fixed (Single.ofWord (-2147483648)).text true 0 :=
    ⟨[48], [48, 48, 48, 48, 48, 48], hzerotext, by simp [Numeral.Run], by simp,
      by simp [Numeral.Run], rfl, by decide +kernel⟩
  have hexact : (Single.ofWord (-1140850688)).exact = -(1 / 128) := by decide +kernel
  have hexactZero : (Single.ofWord (-2147483648)).exact = 0 := by decide +kernel
  obtain ⟨hround, hmono⟩ := printed_numbers_are_rounded
  obtain ⟨n, hn, hnearest⟩ := hround (-1140850688) (by decide +kernel)
  obtain ⟨-, rfl⟩ := hfixed.unique hn
  refine ⟨hnearest, by rw [hexact]; norm_num, ?_⟩
  exact hmono (-1140850688) (-2147483648) true true 7812 0 (by decide +kernel) (by decide +kernel)
    hfixed hzero (by rw [hexact, hexactZero]; norm_num)

end WordMachine

/-
The single-precision number nearest to a decimal.

Finite numbers are counted in units of the least positive one.  A pattern stands for a significand
of at most 24 binary digits times a power of two, and a number is rounded to a multiple of the power
that belongs to its size.  A number that was printed lies within half a millionth of its decimal.
Beyond sixteen this is less than half of the distance to the next pattern, so the decimal is read as
the same pattern.  Below sixteen it is the other way round: the patterns are so close that what is
read lies within half a millionth of the decimal, and so it is printed as the same decimal.

* `Rounding.nearestEven_eq`: what is nearer than one half is what is rounded to;
* `Single.magnitude_eq`, `Single.units_of_magnitude`: patterns and units;
* `Single.Binade`: the power of two that belongs to the size of a number, which is unique;
* `Single.nearest_eq`: the nearest pattern, from the binade;
* `Single.nearest_millionths_of_le`, `Single.millionths_of_nearest`: the two halves of the argument.
-/
import WordMachine.Proofs.FloatText
import WordMachine.Single.Reader

namespace WordMachine

/-! ### Rounding quotients -/

namespace Rounding

variable {num den n : Nat}

/-- A quotient is rounded to what is nearer to it than one half. -/
theorem nearestEven_eq (hlow : 2 * num < 2 * (n * den) + den)
    (hhigh : 2 * (n * den) < 2 * num + den) : nearestEven num den = n := by
  have hden : 0 < den := by omega
  obtain ⟨hupper, hlower⟩ := nearestEven_bounds num hden
  have hle : nearestEven num den * den < (n + 1) * den := by
    rw [Nat.succ_mul]
    omega
  have hge : n * den < (nearestEven num den + 1) * den := by
    rw [Nat.succ_mul]
    omega
  have hlt := Nat.lt_of_mul_lt_mul_right hle
  have hgt := Nat.lt_of_mul_lt_mul_right hge
  omega

theorem le_nearestEven (hden : 0 < den) (h : n * den ≤ num) : n ≤ nearestEven num den := by
  have hlower := (nearestEven_bounds num hden).2
  have hlt : n * den < (nearestEven num den + 1) * den := by
    rw [Nat.succ_mul]
    omega
  exact Nat.le_of_lt_succ (Nat.lt_of_mul_lt_mul_right hlt)

theorem nearestEven_le (hden : 0 < den) (h : num ≤ n * den) : nearestEven num den ≤ n := by
  have hupper := (nearestEven_bounds num hden).1
  have hlt : nearestEven num den * den < (n + 1) * den := by
    rw [Nat.succ_mul]
    omega
  exact Nat.le_of_lt_succ (Nat.lt_of_mul_lt_mul_right hlt)

end Rounding

namespace Single

/-! ### Patterns and units -/

variable {x : Single}

/-- The size of a finite number, counted in the least positive one. -/
def units (x : Single) : Nat := x.significand * 2 ^ x.scale

theorem magnitude_eq (x : Single) : x.magnitude = x.scale * 8388608 + x.significand := by
  have hdiv : 8388608 * (x.magnitude / 8388608) + x.magnitude % 8388608 = x.magnitude :=
    Nat.div_add_mod _ _
  rw [scale, significand, fraction]
  split
  · next hzero =>
    rw [exponent] at hzero ⊢
    omega
  · next hpos =>
    rw [exponent] at hpos ⊢
    omega

theorem significand_lt (x : Single) : x.significand < 16777216 := by
  have hfraction : x.fraction < 8388608 := Nat.mod_lt _ (by decide)
  rw [significand]
  split <;> omega

/-- Where the exponent is not the least one, the leading bit is set. -/
theorem le_significand (h : 0 < x.scale) : 8388608 ≤ x.significand := by
  have hexponent : x.exponent ≠ 0 := by
    rw [scale] at h
    omega
  rw [significand, if_neg hexponent]
  omega

/-- What a pattern stands for, from any way to write its magnitude.  A significand may have reached
the next power of two. -/
theorem units_of_magnitude {k q : Nat} (h : x.magnitude = k * 8388608 + q) (hq : q ≤ 16777216)
    (hk : k = 0 ∨ 8388608 ≤ q) : x.units = q * 2 ^ k := by
  have hsplit := x.magnitude_eq
  have hlt := x.significand_lt
  have hlead : 0 < x.scale → 8388608 ≤ x.significand := le_significand
  by_cases hcarry : q = 16777216
  · -- A carry leaves no fraction, and the exponent is the next one.
    have hscale : x.scale = k + 1 := by omega
    have hsignificand : x.significand = 8388608 := by omega
    rw [units, hscale, hsignificand, hcarry, Nat.pow_succ]
    omega
  · have hscale : x.scale = k := by omega
    have hsignificand : x.significand = q := by omega
    rw [units, hscale, hsignificand]

theorem magnitude_ofMagnitude (negative : Bool) {n : Nat} (h : n < 2147483648) :
    (ofMagnitude negative n).magnitude = n := by
  rw [magnitude, ofMagnitude]
  cases negative <;> simp <;> omega

theorem isNegative_ofMagnitude (negative : Bool) {n : Nat} (h : n < 2147483648) :
    (ofMagnitude negative n).isNegative = negative := by
  rw [isNegative, ofMagnitude]
  cases negative <;> simp <;> omega

/-- A number is its sign and its magnitude. -/
theorem ofMagnitude_magnitude (x : Single) : ofMagnitude x.isNegative x.magnitude = x := by
  have hbits : x.bits.toNat < 4294967296 := x.bits.toNat_lt
  have hpattern : (if x.isNegative then x.magnitude + 2147483648 else x.magnitude) =
      x.bits.toNat := by
    rw [magnitude, isNegative]
    by_cases hneg : 2147483648 ≤ x.bits.toNat
    · rw [if_pos (by simpa using hneg)]
      omega
    · rw [if_neg (by simpa using hneg)]
      omega
  rw [ofMagnitude, hpattern, UInt32.ofNat_toNat]

/-! ### Binades -/

/-- The quotient has `k + 24` binary digits, or fewer if `k` is zero. -/
structure Binade (num den k : Nat) : Prop where
  upper : num < den * 2 ^ (k + 24)
  lower : k = 0 ∨ den * 2 ^ (k + 23) ≤ num

variable {num den k : Nat}

theorem Binade.le {j : Nat} (hj : Binade num den j) (hk : Binade num den k) : j ≤ k := by
  rcases hj.lower with hzero | hlower
  · omega
  · have hlt : den * 2 ^ (j + 23) < den * 2 ^ (k + 24) := Nat.lt_of_le_of_lt hlower hk.upper
    have hpow := (Nat.pow_lt_pow_iff_right (by decide)).mp (Nat.lt_of_mul_lt_mul_left hlt)
    omega

theorem binade_log2 (num : Nat) (hden : 0 < den) :
    Binade num den (Nat.log2 (num / den) - 23) := by
  have hlt : num < den * (num / den + 1) := Nat.lt_mul_div_succ num hden
  have hsize : num / den < 2 ^ (Nat.log2 (num / den) + 1) := Nat.lt_log2_self
  constructor
  · refine Nat.lt_of_lt_of_le hlt (Nat.mul_le_mul_left den ?_)
    exact Nat.le_trans hsize (Nat.pow_le_pow_right (by decide) (by omega))
  · by_cases hlarge : 23 < Nat.log2 (num / den)
    · refine .inr (Nat.le_trans (Nat.mul_le_mul_left den ?_) (Nat.mul_div_le num den))
      have hne : num / den ≠ 0 := by
        intro hzero
        rw [hzero] at hlarge
        exact absurd hlarge (by decide)
      rw [show Nat.log2 (num / den) - 23 + 23 = Nat.log2 (num / den) by omega]
      exact Nat.log2_self_le hne
    · -- At most 24 digits: none of them is cut off.
      exact .inl (by omega)

/-- The nearest pattern, from the binade of the decimal. -/
theorem nearest_eq (hden : 0 < den) (h : Binade (num * 2 ^ 149) den k) :
    nearest num den =
      min infinity (k * 8388608 + Rounding.nearestEven (num * 2 ^ 149) (den * 2 ^ k)) := by
  have hlog := binade_log2 (num * 2 ^ 149) hden
  obtain rfl : k = Nat.log2 (num * 2 ^ 149 / den) - 23 := Nat.le_antisymm (h.le hlog) (hlog.le h)
  rfl

/-- In its binade a quotient is rounded to a significand, or to the power of two after them. -/
theorem Binade.significand (h : Binade num den k) (hden : 0 < den) :
    Rounding.nearestEven num (den * 2 ^ k) ≤ 16777216 ∧
      (k = 0 ∨ 8388608 ≤ Rounding.nearestEven num (den * 2 ^ k)) := by
  have hpos : 0 < den * 2 ^ k := Nat.mul_pos hden (Nat.two_pow_pos k)
  have hpow : ∀ j, 2 ^ j * (den * 2 ^ k) = den * 2 ^ (k + j) := by
    intro j
    rw [Nat.pow_add]
    ring
  constructor
  · refine Rounding.nearestEven_le hpos ?_
    rw [show 16777216 = 2 ^ 24 from rfl, hpow]
    exact Nat.le_of_lt h.upper
  · rcases h.lower with hzero | hlower
    · exact .inl hzero
    · refine .inr (Rounding.le_nearestEven hpos ?_)
      rw [show 8388608 = 2 ^ 23 from rfl, hpow]
      exact hlower

/-! ### Decimals with six digits -/

theorem millionths_eq (x : Single) :
    x.millionths = Rounding.nearestEven (x.units * 1000000) (2 ^ 149) := rfl

/-- A decimal is within half a millionth of the number that it was printed for. -/
theorem millionths_bounds (x : Single) :
    2 * (x.millionths * 2 ^ 149) ≤ 2 * (x.units * 1000000) + 2 ^ 149 ∧
      2 * (x.units * 1000000) ≤ 2 * (x.millionths * 2 ^ 149) + 2 ^ 149 :=
  Rounding.nearestEven_bounds _ (Nat.two_pow_pos 149)

/-- **From sixteen on the decimal is nearest to the number that it was printed for**, since half a
millionth is less than half of the distance between patterns. -/
theorem nearest_millionths_of_le (hfinite : x.isFinite = true) (hscale : 130 ≤ x.scale) :
    nearest x.millionths 1000000 = x.magnitude := by
  obtain ⟨hupper, hlower⟩ := x.millionths_bounds
  have hlt := x.significand_lt
  have hlead := le_significand (x := x) (by omega)
  have hpower : 2 ^ 130 ≤ 2 ^ x.scale := Nat.pow_le_pow_right (by decide) hscale
  have hunits : x.units * 1000000 = x.significand * (1000000 * 2 ^ x.scale) := by
    rw [units]
    ring
  have hfirst : 8388608 * (1000000 * 2 ^ x.scale) ≤ x.significand * (1000000 * 2 ^ x.scale) :=
    Nat.mul_le_mul_right _ hlead
  have hlast : (x.significand + 1) * (1000000 * 2 ^ x.scale) ≤ 16777216 * (1000000 * 2 ^ x.scale) :=
    Nat.mul_le_mul_right _ hlt
  have hbinade : Binade (x.millionths * 2 ^ 149) 1000000 x.scale := by
    have hpow : ∀ j, 1000000 * 2 ^ (x.scale + j) = 2 ^ j * (1000000 * 2 ^ x.scale) := by
      intro j
      rw [Nat.pow_add]
      ring
    constructor
    · rw [hpow]
      rw [Nat.succ_mul] at hlast
      omega
    · -- The least number of the binade is a decimal itself, and rounding is monotone.
      refine .inr ?_
      have hexact : 1000000 * 2 ^ (x.scale + 23) = 1000000 * 2 ^ (x.scale - 126) * 2 ^ 149 := by
        rw [Nat.mul_assoc, ← Nat.pow_add]
        congr 2
        omega
      rw [hexact]
      refine Nat.mul_le_mul_right _ ?_
      rw [millionths_eq]
      refine Rounding.le_nearestEven (Nat.two_pow_pos 149) ?_
      rw [← hexact, hpow, hunits]
      exact hfirst
  have hround : Rounding.nearestEven (x.millionths * 2 ^ 149) (1000000 * 2 ^ x.scale) =
      x.significand := Rounding.nearestEven_eq (by omega) (by omega)
  have hmagnitude : x.magnitude < infinity := by simpa [isFinite] using hfinite
  rw [nearest_eq (by decide) hbinade, hround, ← magnitude_eq]
  exact Nat.min_eq_right (Nat.le_of_lt hmagnitude)

/-- **Below sixteen the number nearest to the decimal is printed as the same decimal**, since half
of the distance between patterns is less than half a millionth. -/
theorem millionths_of_nearest (hscale : x.scale ≤ 129) {y : Single}
    (hy : y.magnitude = nearest x.millionths 1000000) :
    y.isFinite = true ∧ y.millionths = x.millionths := by
  obtain ⟨hupper, -⟩ := x.millionths_bounds
  have hunits : x.units ≤ 16777215 * 2 ^ 129 :=
    Nat.mul_le_mul (Nat.le_of_lt_succ x.significand_lt) (Nat.pow_le_pow_right (by decide) hscale)
  obtain ⟨k, hbinade⟩ : ∃ k, Binade (x.millionths * 2 ^ 149) 1000000 k :=
    ⟨_, binade_log2 _ (by decide)⟩
  -- Even the largest of these numbers is more than half a millionth below sixteen, so the decimal
  -- does not reach it.
  have hk : k ≤ 129 := by
    by_contra hlarge
    rcases hbinade.lower with hzero | hlower
    · omega
    · have hpower : 2 ^ 153 ≤ 2 ^ (k + 23) := Nat.pow_le_pow_right (by decide) (by omega)
      omega
  obtain ⟨hq, hlead⟩ := hbinade.significand (by decide)
  rw [nearest_eq (by decide) hbinade, Nat.min_eq_right (by rw [infinity]; omega)] at hy
  obtain ⟨hround, hround'⟩ := Rounding.nearestEven_bounds (x.millionths * 2 ^ 149)
    (Nat.mul_pos (by decide : 0 < 1000000) (Nat.two_pow_pos k))
  have hpower : 2 ^ k ≤ 2 ^ 129 := Nat.pow_le_pow_right (by decide) hk
  refine ⟨?_, ?_⟩
  · rw [isFinite, hy, infinity]
    simp only [decide_eq_true_eq]
    omega
  · rw [millionths_eq, units_of_magnitude hy hq hlead, Nat.mul_assoc, Nat.mul_comm (2 ^ k)]
    exact Rounding.nearestEven_eq (by omega) (by omega)

end Single

end WordMachine

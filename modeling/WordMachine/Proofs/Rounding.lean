/-
Rounding to a grid.

The points of a grid are the whole multiples of a unit.  A number is rounded to the point nearest to
it, and a number half way between two points to the even one.  This says which point it is, in terms
of distances only.

* `Rounding.Nearest`: a multiple of the unit is nearest to a number, and even if there is another
  one that is as near;
* `Rounding.Nearest.mono`: larger numbers are not rounded to smaller points;
* `Rounding.nearest_nearestEven`: a quotient is rounded to its nearest point.
-/
import Mathlib.Algebra.Order.Field.Rat
import Mathlib.Algebra.Order.Ring.Abs
import Mathlib.Tactic.Linarith
import WordMachine.Single.Rounding

namespace WordMachine.Rounding

/-- Of all multiples of a unit the n-th is nearest to a number, and if another one is as near, then
`n` is even. -/
structure Nearest (unit x : ℚ) (n : ℤ) : Prop where
  nearest : ∀ k : ℤ, |n * unit - x| ≤ |k * unit - x|
  even : ∀ k : ℤ, k ≠ n → |n * unit - x| = |k * unit - x| → n % 2 = 0

/-- Of two points the upper one is nearer to what lies above their middle. -/
theorem abs_upper_le_iff {a b x : ℚ} (h : b < a) : |a - x| ≤ |b - x| ↔ a + b ≤ 2 * x := by
  constructor
  · intro hle
    rcases abs_cases (a - x) with ha | ha <;> rcases abs_cases (b - x) with hb | hb <;> linarith
  · intro hle
    rcases abs_cases (a - x) with ha | ha <;> rcases abs_cases (b - x) with hb | hb <;> linarith

theorem abs_lower_le_iff {a b x : ℚ} (h : b < a) : |b - x| ≤ |a - x| ↔ 2 * x ≤ a + b := by
  constructor
  · intro hle
    rcases abs_cases (a - x) with ha | ha <;> rcases abs_cases (b - x) with hb | hb <;> linarith
  · intro hle
    rcases abs_cases (a - x) with ha | ha <;> rcases abs_cases (b - x) with hb | hb <;> linarith

/-- **Rounding is monotone.**  Were a larger number rounded to a smaller point, then both would be
half way between the two points.  So both points would be even, and the odd one between them would
be nearer. -/
theorem Nearest.mono {unit x y : ℚ} {n k : ℤ} (hunit : 0 < unit) (hx : Nearest unit x n)
    (hy : Nearest unit y k) (hle : x ≤ y) : n ≤ k := by
  by_contra hnot
  have hlt : (k : ℚ) * unit < n * unit := by
    have hcast : (k : ℚ) < n := by exact_mod_cast Int.lt_of_not_ge hnot
    exact mul_lt_mul_of_pos_right hcast hunit
  have hupper := (abs_upper_le_iff hlt).mp (hx.nearest k)
  have hlower := (abs_lower_le_iff hlt).mp (hy.nearest n)
  have hn : n % 2 = 0 := by
    refine hx.even k (by omega) (le_antisymm (hx.nearest k) ?_)
    exact (abs_lower_le_iff hlt).mpr (by linarith)
  have hk : k % 2 = 0 := by
    refine hy.even n (by omega) (le_antisymm (hy.nearest n) ?_)
    exact (abs_upper_le_iff hlt).mpr (by linarith)
  have hnext : ((k + 1 : ℤ) : ℚ) * unit = k * unit + unit := by
    rw [Int.cast_add, Int.cast_one, add_mul, one_mul]
  have htwo : k * unit + 2 * unit ≤ n * unit := by
    have hcast : (k : ℚ) + 2 ≤ n := by exact_mod_cast (by omega : k + 2 ≤ n)
    rw [← add_mul]
    exact mul_le_mul_of_nonneg_right hcast hunit.le
  have hnear := (abs_lower_le_iff (by linarith : (k : ℚ) * unit < (k + 1 : ℤ) * unit)).mp
    (hy.nearest (k + 1))
  linarith

theorem nearest_zero (unit : ℚ) : Nearest unit 0 0 := by
  constructor
  · intro k
    rw [Int.cast_zero, zero_mul, sub_zero, abs_zero]
    exact abs_nonneg _
  · intro k _ _
    rfl

/-! ### Quotients -/

variable {num den : Nat}

/-- A quotient that lies half way between two numbers is rounded to an even one. -/
theorem nearestEven_even (hden : 0 < den)
    (h : 2 * num = 2 * (nearestEven num den * den) + den ∨
      2 * num + den = 2 * (nearestEven num den * den)) : nearestEven num den % 2 = 0 := by
  have hd : num / den * den + num % den = num := Nat.div_add_mod' num den
  have hr : num % den < den := Nat.mod_lt num hden
  obtain ⟨hcases, heven⟩ := nearestEven_cases num den
  refine heven ?_
  rcases hcases with ⟨hn, hlow⟩ | ⟨hn, hhigh⟩
  · rw [hn] at h
    omega
  · rw [hn, Nat.add_mul] at h
    omega

/-- The result is within one half of the quotient. -/
theorem half_bounds (num : Nat) (hden : 0 < den) :
    2 * (nearestEven num den : ℚ) ≤ 2 * (num / den) + 1 ∧
      2 * (num / den : ℚ) ≤ 2 * nearestEven num den + 1 := by
  have hpos : (0 : ℚ) < den := by exact_mod_cast hden
  have hquotient : (num / den : ℚ) * den = num := div_mul_cancel₀ _ hpos.ne'
  obtain ⟨hbound, hbound'⟩ := nearestEven_bounds num hden
  have hupper : 2 * ((nearestEven num den : ℚ) * den) ≤ 2 * num + den := by exact_mod_cast hbound
  have hlower : 2 * (num : ℚ) ≤ 2 * ((nearestEven num den : ℚ) * den) + den := by
    exact_mod_cast hbound'
  constructor
  · refine le_of_mul_le_mul_right ?_ hpos
    linarith
  · refine le_of_mul_le_mul_right ?_ hpos
    linarith

theorem nearest_one (num : Nat) (hden : 0 < den) : Nearest 1 (num / den) (nearestEven num den) := by
  obtain ⟨hupper, hlower⟩ := half_bounds num hden
  have hbelow : ∀ k : ℤ, k < nearestEven num den → (k : ℚ) + 1 ≤ nearestEven num den :=
    fun k hk => by exact_mod_cast hk
  have habove : ∀ k : ℤ, nearestEven num den < k → (nearestEven num den : ℚ) + 1 ≤ k :=
    fun k hk => by exact_mod_cast hk
  constructor
  · intro k
    rw [mul_one, mul_one, Int.cast_natCast]
    rcases lt_trichotomy k (nearestEven num den) with hk | hk | hk
    · have hcast := hbelow k hk
      exact (abs_upper_le_iff (by linarith)).mpr (by linarith)
    · rw [hk, Int.cast_natCast]
    · have hcast := habove k hk
      exact (abs_lower_le_iff (by linarith)).mpr (by linarith)
  · intro k hne htie
    rw [mul_one, mul_one, Int.cast_natCast] at htie
    -- Another point can only be as near if the quotient lies half way to it.
    have hpos : (0 : ℚ) < den := by exact_mod_cast hden
    have hquotient : (num / den : ℚ) * den = num := div_mul_cancel₀ _ hpos.ne'
    have heven : nearestEven num den % 2 = 0 := by
      refine nearestEven_even hden ?_
      rcases lt_or_gt_of_ne hne with hk | hk
      · have hcast := hbelow k hk
        have hmid := (abs_lower_le_iff (by linarith)).mp htie.ge
        have hhalf : (2 * (num / den : ℚ) + 1) * den = 2 * nearestEven num den * den := by
          congr 1
          linarith
        have hnat : (2 * num + den : ℚ) = 2 * (nearestEven num den * den) := by linarith
        exact .inr (by exact_mod_cast hnat)
      · have hcast := habove k hk
        have hmid := (abs_upper_le_iff (by linarith)).mp htie.ge
        have hhalf : (2 * nearestEven num den + 1) * (den : ℚ) = 2 * (num / den) * den := by
          congr 1
          linarith
        have hnat : (2 * num : ℚ) = 2 * (nearestEven num den * den) + den := by linarith
        exact .inl (by exact_mod_cast hnat)
    exact_mod_cast heven

/-- **A quotient is rounded to its nearest point**, whatever the unit. -/
theorem nearest_nearestEven {unit : ℚ} (hunit : 0 < unit) (num : Nat) (hden : 0 < den) :
    Nearest unit (num / den * unit) (nearestEven num den) := by
  have hscale : ∀ k : ℤ, |k * unit - num / den * unit| = |k * 1 - (num / den : ℚ)| * unit := by
    intro k
    rw [← sub_mul, abs_mul, abs_of_pos hunit, mul_one]
  have h := nearest_one num hden
  constructor
  · intro k
    rw [hscale, hscale]
    exact mul_le_mul_of_nonneg_right (h.nearest k) hunit.le
  · intro k hne htie
    rw [hscale, hscale] at htie
    exact h.even k hne (mul_right_cancel₀ hunit.ne' htie)

end WordMachine.Rounding

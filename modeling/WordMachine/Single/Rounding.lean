/-
Rounding quotients.

`nearestEven` rounds a quotient of natural numbers to the nearest natural number, and a quotient
half way between two of them to the even one.

* `nearestEven_cases` : the result is the number below the quotient or the one above it.
* `nearestEven_bounds` : the result is within one half.
-/

namespace WordMachine.Rounding

/-- The natural number nearest to `num / den`; of two that are equally near, the even one. -/
def nearestEven (num den : Nat) : Nat :=
  let q := num / den
  let r := num % den
  if 2 * r < den then q
  else if den < 2 * r then q + 1
  else q + q % 2

/-- Which of its two neighbours a quotient is rounded to, and that the middle goes to the even
one. -/
theorem nearestEven_cases (num den : Nat) :
    (nearestEven num den = num / den ∧ 2 * (num % den) ≤ den ∨
        nearestEven num den = num / den + 1 ∧ den ≤ 2 * (num % den)) ∧
      (2 * (num % den) = den → nearestEven num den % 2 = 0) := by
  rw [nearestEven]
  split
  · next hlow => exact ⟨.inl ⟨rfl, Nat.le_of_lt hlow⟩, by omega⟩
  · split
    · next hhigh => exact ⟨.inr ⟨rfl, Nat.le_of_lt hhigh⟩, by omega⟩
    · omega

/-- The result is within one half of the quotient. -/
theorem nearestEven_bounds (num : Nat) {den : Nat} (h : 0 < den) :
    2 * (nearestEven num den * den) ≤ 2 * num + den ∧
      2 * num ≤ 2 * (nearestEven num den * den) + den := by
  have hdiv : num / den * den + num % den = num := Nat.div_add_mod' num den
  have hrest : num % den < den := Nat.mod_lt num h
  rcases (nearestEven_cases num den).1 with ⟨hn, hlow⟩ | ⟨hn, hhigh⟩
  · rw [hn]
    omega
  · rw [hn, Nat.add_mul]
    omega

end WordMachine.Rounding

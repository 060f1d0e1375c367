/-!
# Rounding a quotient

* `roundDiv_two_mul_le`, `le_two_mul_roundDiv`: the rounded quotient is at most a half away.
-/

namespace IconCode.Decimal

/-- The whole number nearest to `num / den`, of two the even one. -/
def roundDiv (num den : Nat) : Nat :=
  let q := num / den
  let r := num % den
  if 2 * r < den then q
  else if den < 2 * r then q + 1
  else q + q % 2

theorem roundDiv_two_mul_le (num den : Nat) :
    2 * (roundDiv num den * den) ≤ 2 * num + den := by
  have hq : den * (num / den) + num % den = num := Nat.div_add_mod num den
  have hc : num / den * den = den * (num / den) := Nat.mul_comm _ _
  simp only [roundDiv]
  split
  · omega
  · split
    · rw [Nat.add_mul]; omega
    · have : num / den % 2 * den ≤ 1 * den := Nat.mul_le_mul_right _ (by omega)
      rw [Nat.add_mul]; omega

theorem le_two_mul_roundDiv (num : Nat) {den : Nat} (h : 0 < den) :
    2 * num ≤ 2 * (roundDiv num den * den) + den := by
  have hq : den * (num / den) + num % den = num := Nat.div_add_mod num den
  have hc : num / den * den = den * (num / den) := Nat.mul_comm _ _
  have hr : num % den < den := Nat.mod_lt _ h
  simp only [roundDiv]
  split
  · omega
  · split
    · rw [Nat.add_mul]; omega
    · rw [Nat.add_mul]; omega

end IconCode.Decimal

import Mathlib.Algebra.Group.Nat.Defs
import IconCode.Decimal.Hundredths

/-!
# Reading decimals back

A text with a point says how many units of the last place it stands for, so different numbers are
written differently.

* `unitsOf_placed`: the digits of a text are those of its number of units.
* `Hundredths.ofText_magnitude`: a number of hundredths is what its sign and digits say.
-/

namespace IconCode.Decimal

theorem isDigit_of_mem_digits {n : Nat} {c : Char} (h : c ∈ digits n) : c.isDigit = true :=
  Nat.isDigit_of_mem_toDigits (by decide) (by decide) h

theorem isDigit_of_mem_padded {width n : Nat} {c : Char} (h : c ∈ padded width n) :
    c.isDigit = true := by
  rw [padded, List.mem_append, List.mem_replicate] at h
  rcases h with ⟨-, rfl⟩ | h
  · decide
  · exact isDigit_of_mem_digits h

theorem ofDigitChars_digits (n init : Nat) :
    Nat.ofDigitChars 10 (digits n) init = 10 ^ (digits n).length * init + n := by
  rw [Nat.ofDigitChars_eq_ofDigitChars_zero, digits, Nat.ofDigitChars_ten_toDigits]

theorem length_digits_le {places n : Nat} (hp : 0 < places) (h : n < 10 ^ places) :
    (digits n).length ≤ places :=
  (Nat.length_toDigits_le_iff (by decide) hp).2 h

/-- Zeros before the digits make up the width and nothing else. -/
theorem ofDigitChars_padded {places n : Nat} (hp : 0 < places) (h : n < 10 ^ places) (init : Nat) :
    Nat.ofDigitChars 10 (padded places n) init = 10 ^ places * init + n := by
  have hlength := length_digits_le hp h
  have hpow : 10 ^ (digits n).length * 10 ^ (places - (digits n).length) = 10 ^ places := by
    rw [← Nat.pow_add]
    congr 1
    omega
  rw [padded, Nat.ofDigitChars_append, Nat.ofDigitChars_replicate_zero, ofDigitChars_digits,
    ← Nat.mul_assoc, hpow]

theorem filter_placed (places n : Nat) :
    (placed places n).filter Char.isDigit =
      digits (n / 10 ^ places) ++ padded places (n % 10 ^ places) := by
  have hwhole : (digits (n / 10 ^ places)).filter Char.isDigit = digits (n / 10 ^ places) :=
    List.filter_eq_self.2 fun c hc => isDigit_of_mem_digits hc
  have hplaces : (padded places (n % 10 ^ places)).filter Char.isDigit =
      padded places (n % 10 ^ places) :=
    List.filter_eq_self.2 fun c hc => isDigit_of_mem_padded hc
  have hpoint : Char.isDigit '.' = false := by decide
  change (digits (n / 10 ^ places) ++ '.' :: padded places (n % 10 ^ places)).filter
    Char.isDigit = _
  rw [List.filter_append, List.filter_cons, hwhole, hplaces]
  simp [hpoint]

theorem unitsOf_placed {places : Nat} (hp : 0 < places) (n : Nat) :
    unitsOf (placed places n) = n := by
  have hlt : n % 10 ^ places < 10 ^ places := Nat.mod_lt _ (Nat.pow_pos (by decide))
  rw [unitsOf, filter_placed, Nat.ofDigitChars_append, ofDigitChars_padded hp hlt,
    ofDigitChars_digits, Nat.mul_zero, Nat.zero_add, Nat.div_add_mod]

namespace Hundredths

theorem unitsOf_magnitude (h : Hundredths) : unitsOf h.magnitude = h.count.natAbs :=
  unitsOf_placed (by decide) _

/-- A number is read back from its sign and its digits. -/
theorem ofText_magnitude (h : Hundredths) : ofText h.isNegative h.magnitude = h := by
  obtain ⟨n⟩ := h
  rw [ofText, unitsOf_magnitude]
  simp only [isNegative, decide_eq_true_eq]
  congr 1
  split <;> omega

theorem exists_magnitude_eq_cons (h : Hundredths) :
    ∃ c s, h.magnitude = c :: s ∧ c.isDigit = true := by
  cases hdigits : digits (h.count.natAbs / 10 ^ 2) with
  | nil => exact absurd hdigits Nat.toDigits_ne_nil
  | cons c s =>
    have hc : c ∈ digits (h.count.natAbs / 10 ^ 2) := by
      rw [hdigits]
      exact List.mem_cons_self
    refine ⟨c, s ++ '.' :: padded 2 (h.count.natAbs % 10 ^ 2), ?_, isDigit_of_mem_digits hc⟩
    rw [← List.cons_append, ← hdigits]
    rfl

end Hundredths

end IconCode.Decimal

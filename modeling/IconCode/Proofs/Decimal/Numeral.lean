import Mathlib
import IconCode.Code.ExprTokens
import IconCode.Proofs.Decimal.Binary
import IconCode.Proofs.Decimal.Digits

/-!
# Numbers in code

Every double has a numeral in code, and that is its value rounded to hundredths.

* `Hundredths.proper_numeral`: which digits a numeral has.
* `Hundredths.value_numeral`: the number that its digits stand for.
* `abs_value_ofFloat_sub_le`: how far that number is from the double.
* `numberTokens_ofFloat`: all of this for the tokens of a double.
-/

namespace IconCode.Decimal

open Code (Token numberTokens)

/-! ## Numerals -/

/-- A number as it stands in code: a sign, and digits before and after the point. -/
structure Numeral where
  negative : Bool
  whole : List Char
  places : List Char

namespace Numeral

/-- The sign is a token of its own. -/
def tokens (n : Numeral) : List Token :=
  (if n.negative then [.atom "-"] else []) ++
    [.atom (String.ofList (n.whole ++ '.' :: n.places))]

/-- The number that the digits stand for. -/
def value (n : Numeral) : ℚ :=
  (if n.negative then -1 else 1) *
    (Nat.ofDigitChars 10 n.whole 0 + Nat.ofDigitChars 10 n.places 0 / 10 ^ n.places.length)

/-- Digits with a point between them: at least one before it, without superfluous zeros, and two
after it. -/
structure Proper (n : Numeral) : Prop where
  isDigit_whole : ∀ c ∈ n.whole, c.isDigit = true
  ne_nil_whole : n.whole ≠ []
  zero_whole : n.whole.head? = some '0' → n.whole = ['0']
  isDigit_places : ∀ c ∈ n.places, c.isDigit = true
  length_places : n.places.length = 2

end Numeral

/-! ## Digits -/

theorem head?_digits_ne {n : Nat} (h : 0 < n) : (digits n).head? ≠ some '0' := by
  induction n using Nat.strong_induction_on with
  | _ n ih =>
    rcases Nat.lt_or_ge n 10 with hlt | hge
    · rw [digits, Nat.toDigits_of_lt_base hlt, List.head?_singleton]
      interval_cases n <;> decide
    · have hrest := ih (n / 10) (by omega) (by omega)
      have hne : digits (n / 10) ≠ [] := Nat.toDigits_ne_nil
      have hdigits : digits n = digits (n / 10) ++ [(n % 10).digitChar] :=
        Nat.toDigits_of_base_le (by decide) hge
      rwa [hdigits, List.head?_append_of_ne_nil _ hne]

theorem eq_zero_of_digits {n : Nat} (h : (digits n).head? = some '0') : digits n = ['0'] := by
  rcases Nat.eq_zero_or_pos n with rfl | hpos
  · rfl
  · exact absurd h (head?_digits_ne hpos)

theorem length_padded_of_lt {places n : Nat} (hp : 0 < places) (h : n < 10 ^ places) :
    (padded places n).length = places := by
  have hlength := length_digits_le hp h
  simp only [padded, List.length_append, List.length_replicate]
  omega

theorem ofDigitChars_of_zeros {s : List Char} (h : ∀ c ∈ s, c = '0') :
    Nat.ofDigitChars 10 s 0 = 0 := by
  rw [List.eq_replicate_iff.2 ⟨rfl, h⟩, Nat.ofDigitChars_replicate_zero, Nat.mul_zero]

namespace Hundredths

/-- The numeral of a number of hundredths. -/
def numeral (h : Hundredths) : Numeral where
  negative := h.isNegative
  whole := digits (h.count.natAbs / 100)
  places := padded 2 (h.count.natAbs % 100)

theorem numberTokens_eq (h : Hundredths) : numberTokens h = h.numeral.tokens := by
  change (if h.isNegative then _ else _) = (if h.isNegative then _ else _) ++ _
  split <;> rfl

theorem proper_numeral (h : Hundredths) : h.numeral.Proper where
  isDigit_whole _ hc := isDigit_of_mem_digits hc
  ne_nil_whole := Nat.toDigits_ne_nil
  zero_whole := eq_zero_of_digits
  isDigit_places _ hc := isDigit_of_mem_padded hc
  length_places := length_padded_of_lt (by decide) (Nat.mod_lt _ (by decide))

theorem value_numeral (h : Hundredths) : h.numeral.value = h.value := by
  have hlt : h.count.natAbs % 100 < 10 ^ 2 := Nat.mod_lt _ (by decide)
  have hparts : (h.count.natAbs : ℚ) = 100 * (h.count.natAbs / 100 : Nat) +
      (h.count.natAbs % 100 : Nat) := by
    exact_mod_cast (Nat.div_add_mod h.count.natAbs 100).symm
  have hdigits : h.numeral.value =
      (if h.isNegative then -1 else 1) * ((h.count.natAbs : ℚ) / 100) := by
    rw [Numeral.value, h.proper_numeral.length_places]
    simp only [numeral]
    rw [ofDigitChars_digits, ofDigitChars_padded (by decide) hlt, hparts]
    congr 1
    push_cast
    ring
  rw [hdigits, value, Nat.cast_natAbs, isNegative]
  rcases lt_or_ge h.count 0 with hneg | hnonneg
  · rw [if_pos (decide_eq_true hneg), abs_of_neg hneg]
    push_cast
    ring
  · rw [if_neg (by simpa using hnonneg), abs_of_nonneg hnonneg, one_mul]

/-- The numeral of nothing shows nothing but zeros. -/
theorem count_eq_zero_iff (h : Hundredths) :
    h.count = 0 ↔ ∀ c ∈ h.numeral.whole ++ h.numeral.places, c = '0' := by
  constructor
  · intro hzero
    obtain ⟨count⟩ := h
    subst hzero
    intro c hc
    have hmem : c ∈ ['0', '0', '0'] := hc
    simpa using hmem
  · intro hzeros
    rw [List.forall_mem_append] at hzeros
    have hvalue : h.value = 0 := by
      rw [← value_numeral, Numeral.value, ofDigitChars_of_zeros hzeros.1,
        ofDigitChars_of_zeros hzeros.2]
      simp
    rw [(value_eq_zero_iff h).1 hvalue]

end Hundredths

/-! ## Rounding -/

theorem abs_roundDiv_sub_le (num : Nat) {den : Nat} (h : 0 < den) :
    |(roundDiv num den : ℚ) - num / den| ≤ 1 / 2 := by
  have hpos : (0 : ℚ) < den := Nat.cast_pos.2 h
  have hlow : (2 : ℚ) * num ≤ 2 * (roundDiv num den * den) + den := by
    exact_mod_cast le_two_mul_roundDiv num h
  have hhigh : (2 : ℚ) * (roundDiv num den * den) ≤ 2 * num + den := by
    exact_mod_cast roundDiv_two_mul_le num den
  have hdiv : (num : ℚ) / den * den = num := div_mul_cancel₀ _ hpos.ne'
  rw [abs_le]
  constructor
  · have hle : (num / den : ℚ) * den ≤ (roundDiv num den + 1 / 2) * den := by linarith
    linarith [le_of_mul_le_mul_right hle hpos]
  · have hle : (roundDiv num den : ℚ) * den ≤ (num / den + 1 / 2) * den := by linarith
    linarith [le_of_mul_le_mul_right hle hpos]

/-- A literal is at most half a hundredth away from its double. -/
theorem abs_value_ofFloat_sub_le {x : Float} {v : Exact} (h : Exact.ofFloat? x = some v) :
    |(Hundredths.ofFloat x).value - v.value| ≤ 1 / 200 := by
  have hround := abs_roundDiv_sub_le (v.magnitude * 100) stepsPerUnit_pos
  have hvalue : ((v.magnitude * 100 : Nat) : ℚ) / stepsPerUnit =
      100 * (v.magnitude / stepsPerUnit) := by
    push_cast
    ring
  rw [hvalue] at hround
  simp only [Hundredths.ofFloat, h, Hundredths.value, Exact.value, Exact.steps]
  generalize roundDiv (v.magnitude * 100) stepsPerUnit = n at hround ⊢
  rw [abs_le] at hround ⊢
  cases v.negative with
  | false =>
    simp only [Bool.false_eq_true, if_false, Int.cast_natCast]
    constructor <;> linarith
  | true =>
    simp only [if_true, Int.cast_neg, Int.cast_natCast, neg_div]
    constructor <;> linarith

theorem isNegative_ofFloat_iff (x : Float) :
    (Hundredths.ofFloat x).isNegative = true ↔ x < 0.0 ∧ (Hundredths.ofFloat x).count ≠ 0 := by
  rw [Hundredths.isNegative, decide_eq_true_iff, Hundredths.ofFloat]
  cases hx : Exact.ofFloat? x with
  | none => simp
  | some v =>
    have hround := roundDiv_pos_iff (v.magnitude * 100) stepsPerUnit_pos
    rw [lt_zero_iff_negative hx]
    simp only
    cases v.negative with
    | false =>
      simp only [Bool.false_eq_true, if_false, false_and, iff_false]
      omega
    | true =>
      -- What is not rounded to nothing was not nothing.
      simp only [if_true, true_and]
      omega

/-- Every double has a numeral. It has a sign exactly if the double is below nought and the digits
show it, its value is at most half a hundredth away from a finite double, and everything else is
written as nought. -/
theorem numberTokens_ofFloat (x : Float) :
    ∃ n : Numeral, numberTokens (Hundredths.ofFloat x) = n.tokens ∧ n.Proper ∧
      (n.negative = true ↔ x < 0.0 ∧ ∃ c ∈ n.whole ++ n.places, c ≠ '0') ∧
      (x.isFinite = true →
        ∃ q, rational? x.toModel.unpack = some q ∧ |n.value - q| ≤ 1 / 200) ∧
      (x.isFinite = false → n.tokens = [.atom "0.00"]) := by
  have hvalue := map_value_ofFloat? x
  refine ⟨(Hundredths.ofFloat x).numeral, Hundredths.numberTokens_eq _,
    Hundredths.proper_numeral _, ?_, ?_, ?_⟩
  · change (Hundredths.ofFloat x).isNegative = true ↔ _
    rw [isNegative_ofFloat_iff, Ne, Hundredths.count_eq_zero_iff]
    push Not
    rfl
  · intro hfinite
    rw [← isSome_rational?, ← hvalue, Option.isSome_map] at hfinite
    obtain ⟨v, hv⟩ := Option.isSome_iff_exists.1 hfinite
    rw [hv] at hvalue
    refine ⟨v.value, hvalue.symm, ?_⟩
    rw [Hundredths.value_numeral]
    exact abs_value_ofFloat_sub_le hv
  · intro hinfinite
    rw [← isSome_rational?, ← hvalue, Option.isSome_map, Option.isSome_eq_false_iff,
      Option.isNone_iff_eq_none] at hinfinite
    rw [Hundredths.ofFloat, hinfinite]
    rfl

end IconCode.Decimal

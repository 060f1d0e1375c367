import Mathlib
import IconCode.Proofs.Decimal.Value
import IconCode.Proofs.Geometry.Double

/-!
# Doubles as binary fractions

A finite double is a whole number times a power of two, and it has a sign. Its exact value in steps
is that number.

* `map_value_ofFloat?`: the number that a double stands for, from its bits and from its parts.
* `lt_zero_iff`: which finite doubles are below nought.
-/

namespace IconCode.Decimal

open Float.Model UnpackedFloat

/-- The number that the parts of a double stand for, unless it is infinite or no number. -/
def rational? : UnpackedFloat → Option ℚ
  | .zero _ => some 0
  | .finite s m e _ => some (s.apply m * (2 : ℚ) ^ e)
  | .infinity _ | .notANumber => none

theorem isSome_rational? (x : Float) : (rational? x.toModel.unpack).isSome = x.isFinite := by
  change _ = x.toModel.unpack.isFinite
  cases x.toModel.unpack <;> rfl

/-! ## Parts of a bit pattern -/

theorem toNat_unpackMantissa (b : BitVec 64) :
    (@unpackMantissa Format.binary64 b).toNat = b.toNat % 1 <<< 52 := by
  rw [unpackMantissa, BitVec.toNat_cast, BitVec.extractLsb_toNat]
  rfl

/-- The sign of a bit pattern, as a factor. -/
theorem apply_unpackSign (b : BitVec 64) (n : Int) :
    (Sign.ofBitVec (@unpackSign Format.binary64 b)).apply n = if b.getLsbD 63 then -n else n := by
  rw [unpackSign_eq_ofBool]
  cases b.getLsbD 63 <;> rfl

theorem exponent_eq_max_iff (b : BitVec 64) :
    @unpackExponent Format.binary64 b = -1#11 ↔ (b.toNat >>> 52) % 2048 = 2047 := by
  rw [← BitVec.toNat_inj, toNat_unpackExponent]
  rfl

theorem exponent_eq_zero_iff (b : BitVec 64) :
    @unpackExponent Format.binary64 b = 0#11 ↔ (b.toNat >>> 52) % 2048 = 0 := by
  rw [← BitVec.toNat_inj, toNat_unpackExponent]
  rfl

theorem shiftLeft_div_shiftLeft (n k j : Nat) :
    ((n <<< k : Nat) : ℚ) / (1 <<< j : Nat) = n * (2 : ℚ) ^ ((k : Int) - j) := by
  rw [Nat.shiftLeft_eq, Nat.shiftLeft_eq, one_mul, zpow_sub₀ two_ne_zero, zpow_natCast,
    zpow_natCast, Nat.cast_mul, Nat.cast_pow, Nat.cast_pow, Nat.cast_ofNat, mul_div_assoc]

/-- The value in steps, as a binary fraction. -/
theorem Exact.value_eq (v : Exact) :
    v.value = ((if v.negative then -(v.significand : Int) else v.significand : Int) : ℚ) *
      (2 : ℚ) ^ ((v.shift : Int) - 1074) := by
  have hmagnitude : (v.magnitude : ℚ) / stepsPerUnit =
      v.significand * (2 : ℚ) ^ ((v.shift : Int) - 1074) :=
    shiftLeft_div_shiftLeft v.significand v.shift 1074
  rw [value, steps]
  cases v.negative
  · simpa using hmagnitude
  · simpa [neg_div] using hmagnitude

/-- Without bits in the exponent the mantissa, which may be nought, is counted in the smallest
steps. -/
theorem rational?_of_exponent_eq_zero {b : BitVec 64} (h : (b.toNat >>> 52) % 2048 = 0) :
    rational? (UnpackedFloat.unpack Format.binary64 b) =
      some ((if b.getLsbD 63 then -((b.toNat % 1 <<< 52 : Nat) : Int)
        else (b.toNat % 1 <<< 52 : Nat) : Int) * (2 : ℚ) ^ (-1074 : Int)) := by
  have hexponent : (@unpackExponent Format.binary64 b).toNat = 0 :=
    (toNat_unpackExponent b).trans h
  have hmax : @unpackExponent Format.binary64 b ≠ -1#11 := by
    rw [Ne, exponent_eq_max_iff, h]
    decide
  unfold UnpackedFloat.unpack
  rw [if_neg hmax, if_pos ((exponent_eq_zero_iff b).2 h)]
  by_cases hm : @unpackMantissa Format.binary64 b = 0#52
  · have hfraction : b.toNat % 1 <<< 52 = 0 := by
      rw [← toNat_unpackMantissa, hm]
      rfl
    rw [dif_pos hm, hfraction]
    simp [rational?]
  · rw [dif_neg hm, rational?, apply_unpackSign, toNat_unpackMantissa, hexponent]
    rfl

/-- With bits in the exponent there is one more bit than the mantissa shows. -/
theorem rational?_of_exponent_ne_zero {b : BitVec 64} (hmax : (b.toNat >>> 52) % 2048 ≠ 2047)
    (hzero : (b.toNat >>> 52) % 2048 ≠ 0) :
    rational? (UnpackedFloat.unpack Format.binary64 b) =
      some ((if b.getLsbD 63 then -((1 <<< 52 + b.toNat % 1 <<< 52 : Nat) : Int)
        else (1 <<< 52 + b.toNat % 1 <<< 52 : Nat) : Int) *
          (2 : ℚ) ^ (((b.toNat >>> 52) % 2048 : Nat) - 1075 : Int)) := by
  have hfull : (1#1 ++ @unpackMantissa Format.binary64 b).toNat =
      1 <<< 52 + b.toNat % 1 <<< 52 := by
    rw [← toNat_unpackMantissa]
    exact Double.toNat_append_implicit _
  have hbias : (Format.binary64.exponentBias : Int) +
      Format.binary64.mantissaBitsWithoutImplicit = 1075 := by
    decide
  unfold UnpackedFloat.unpack
  rw [if_neg (mt (exponent_eq_max_iff b).1 hmax), if_neg (mt (exponent_eq_zero_iff b).1 hzero),
    rational?, apply_unpackSign, hfull, toNat_unpackExponent, hbias]

theorem map_value_ofFloat? (x : Float) :
    (Exact.ofFloat? x).map Exact.value = rational? x.toModel.unpack := by
  change (Exact.ofBits? x.toModel.toBits.toBitVec.toNat).map Exact.value =
    rational? (UnpackedFloat.unpack Format.binary64 x.toModel.toBits.toBitVec)
  generalize x.toModel.toBits.toBitVec = b
  simp only [Exact.ofBits?]
  by_cases hmax : (b.toNat >>> 52) % 2048 = 2047
  · unfold UnpackedFloat.unpack
    simp only [(exponent_eq_max_iff b).2 hmax, hmax, if_true]
    split <;> rfl
  rw [if_neg hmax]
  by_cases hzero : (b.toNat >>> 52) % 2048 = 0
  · rw [if_pos hzero, rational?_of_exponent_eq_zero hzero, Option.map_some, Exact.value_eq]
    rfl
  · have hshift : ∀ e : Nat, e ≠ 0 → ((e - 1 : Nat) : Int) - 1074 = (e : Int) - 1075 := by
      omega
    rw [if_neg hzero, rational?_of_exponent_ne_zero hmax hzero, Option.map_some, Exact.value_eq,
      hshift _ hzero]
    rfl

/-! ## Signs -/

theorem lt_zero_iff {u : UnpackedFloat} {q : ℚ} (h : rational? u = some q) :
    u.lt (.zero .positive) = true ↔ q < 0 := by
  have hpow : ∀ e : Int, (0 : ℚ) < 2 ^ e := fun e => zpow_pos (by norm_num) e
  cases u with
  | infinity s => cases h
  | notANumber => cases h
  | zero s =>
    cases h
    cases s <;> simp [UnpackedFloat.lt, UnpackedFloat.compare]
  | finite s m e hm =>
    cases h
    cases s with
    | negative =>
      have hnegative : ((-(m : Int) : Int) : ℚ) * 2 ^ e < 0 :=
        mul_neg_of_neg_of_pos (by exact_mod_cast neg_lt_zero.2 (Int.natCast_pos.2 hm)) (hpow e)
      exact iff_of_true rfl hnegative
    | positive =>
      have hpositive : 0 < (((m : Int) : Int) : ℚ) * 2 ^ e :=
        mul_pos (by exact_mod_cast hm) (hpow e)
      exact iff_of_false Bool.false_ne_true hpositive.not_gt

/-- Below nought is what has the sign and is not nought. -/
theorem lt_zero_iff_negative {x : Float} {v : Exact} (h : Exact.ofFloat? x = some v) :
    x < 0.0 ↔ v.negative = true ∧ 0 < v.magnitude := by
  have hvalue : rational? x.toModel.unpack = some v.value := by
    rw [← map_value_ofFloat?, h, Option.map_some]
  have hpos : (0 : ℚ) < stepsPerUnit := Nat.cast_pos.2 stepsPerUnit_pos
  have hlt : x < 0.0 ↔ x.toModel.unpack.lt (0.0 : Float).toModel.unpack = true :=
    decide_eq_true_iff
  rw [hlt, unpack_zero, lt_zero_iff hvalue, Exact.value, div_lt_iff₀ hpos, zero_mul,
    Int.cast_lt_zero, Exact.steps]
  cases v.negative <;> simp

end IconCode.Decimal

import Mathlib
import IconCode.Decimal.Hundredths

/-!
# What a double and its literal stand for

A finite double is a rational number, and so is a number of hundredths. The two need not lie on the
same side of nought: what is not above half a hundredth is rounded to nothing.

* `roundDiv_pos_iff`: a quotient is rounded to something exactly if it is above a half.
* `Hundredths.value_ofFloat_pos_iff`: which doubles have a positive literal.
* `Hundredths.value_ofFloat_nonneg`: a double that is not at most zero has no negative one.
-/

namespace IconCode.Decimal

open Float.Model UnpackedFloat

/-! ## Rounding to nothing -/

/-- Exactly a half is rounded to the even neighbour, and that is nothing. -/
theorem roundDiv_pos_iff (num : Nat) {den : Nat} (h : 0 < den) :
    0 < roundDiv num den ↔ den < 2 * num := by
  by_cases hlt : num < den
  · -- Nothing but a remainder: it alone decides.
    simp only [roundDiv, Nat.div_eq_of_lt hlt, Nat.mod_eq_of_lt hlt]
    split
    · omega
    · split <;> omega
  · -- From one on both sides hold, since rounding takes away a half at most.
    have hbound := le_two_mul_roundDiv num h
    have hne : roundDiv num den ≠ 0 := by
      intro hzero
      rw [hzero] at hbound
      omega
    omega

theorem stepsPerUnit_pos : 0 < stepsPerUnit := by
  unfold stepsPerUnit
  decide

/-! ## Values -/

/-- The number that a finite double is. -/
def Exact.value (v : Exact) : ℚ := v.steps / stepsPerUnit

/-- The number that a literal stands for. -/
def Hundredths.value (h : Hundredths) : ℚ := h.count / 100

/-- Whether a double is a finite number above half a hundredth. -/
def Visible (x : Float) : Prop := ∃ v, Exact.ofFloat? x = some v ∧ 1 / 200 < v.value

theorem Exact.lt_value_iff (v : Exact) :
    1 / 200 < v.value ↔ v.negative = false ∧ stepsPerUnit < 200 * v.magnitude := by
  have hpos : (0 : ℚ) < stepsPerUnit := Nat.cast_pos.2 stepsPerUnit_pos
  have hsteps : 1 / 200 < v.value ↔ (stepsPerUnit : Int) < 200 * v.steps := by
    rw [value, lt_div_iff₀ hpos, div_mul_eq_mul_div, one_mul, div_lt_iff₀' (by norm_num)]
    exact_mod_cast Iff.rfl
  rw [hsteps, steps]
  cases v.negative <;> simp <;> omega

namespace Hundredths

theorem value_pos_iff (h : Hundredths) : 0 < h.value ↔ 0 < h.count := by
  rw [value, div_pos_iff_of_pos_right (by norm_num), Int.cast_pos]

theorem value_nonneg_iff (h : Hundredths) : 0 ≤ h.value ↔ 0 ≤ h.count := by
  rw [value, le_div_iff₀ (by norm_num), zero_mul, Int.cast_nonneg_iff]

theorem value_eq_zero_iff (h : Hundredths) : h.value = 0 ↔ h = ⟨0⟩ := by
  obtain ⟨count⟩ := h
  simp [value]

/-- A double has a positive literal exactly if it is finite and above half a hundredth. -/
theorem value_ofFloat_pos_iff (x : Float) : 0 < (ofFloat x).value ↔ Visible x := by
  rw [value_pos_iff, ofFloat, Visible]
  cases Exact.ofFloat? x with
  | none => simp
  | some v =>
    have hround := roundDiv_pos_iff (v.magnitude * 100) stepsPerUnit_pos
    simp only [Option.some.injEq, exists_eq_left', Exact.lt_value_iff]
    cases v.negative with
    | false =>
      simp only [Bool.false_eq_true, if_false, true_and, Int.natCast_pos]
      omega
    | true =>
      simp only [if_true, Bool.true_eq_false, false_and, iff_false]
      omega

end Hundredths

/-! ## Signs -/

theorem unpackSign_eq_ofBool (b : BitVec 64) :
    @unpackSign Format.binary64 b = BitVec.ofBool (b.getLsbD 63) := by
  apply BitVec.eq_of_getLsbD_eq
  intro i hi
  obtain rfl : i = 0 := by omega
  rw [unpackSign, BitVec.getLsbD_cast, BitVec.getLsbD_extractLsb]
  change (true && b.getLsbD 63) = (BitVec.ofBool (b.getLsbD 63)).getLsbD 0
  cases b.getLsbD 63 <;> rfl

theorem toNat_unpackExponent (b : BitVec 64) :
    (@unpackExponent Format.binary64 b).toNat = (b.toNat >>> 52) % 2048 := by
  rw [unpackExponent, BitVec.toNat_cast, BitVec.extractLsb_toNat]
  rfl

theorem Exact.ofBits?_eq_some {bits : Nat} {v : Exact} (h : ofBits? bits = some v) :
    (bits >>> 52) % 2048 ≠ 2047 ∧ v.negative = bits.testBit 63 := by
  simp only [ofBits?] at h
  split at h
  · cases h
  · split at h <;> cases h <;> exact ⟨‹_›, rfl⟩

theorem unpack_zero : (0.0 : Float).toModel.unpack = .zero .positive := by rfl

/-- Whatever has the sign bit, and is a number, is at most zero. -/
theorem unpack_le_zero {b : BitVec 64} (hsign : b.getLsbD 63 = true)
    (hexponent : @unpackExponent Format.binary64 b ≠ -1#11) :
    (UnpackedFloat.unpack Format.binary64 b).le (.zero .positive) = true := by
  have hnegative : Sign.ofBitVec (@unpackSign Format.binary64 b) = .negative := by
    rw [unpackSign_eq_ofBool, hsign]
    rfl
  unfold UnpackedFloat.unpack
  simp only [hnegative]
  -- What is left are the zeros, the small and the full mantissas.
  rw [if_neg hexponent]
  split
  · split <;> rfl
  · rfl

theorem Exact.le_zero_of_negative {x : Float} {v : Exact} (h : ofFloat? x = some v)
    (hnegative : v.negative = true) : x ≤ 0.0 := by
  obtain ⟨hfinite, hsign⟩ := ofBits?_eq_some h
  have hexponent : @unpackExponent Format.binary64 x.toModel.toBits.toBitVec ≠ -1#11 := by
    intro heq
    exact hfinite ((toNat_unpackExponent _).symm.trans (congrArg BitVec.toNat heq))
  have hle : x.toModel.unpack.le (0.0 : Float).toModel.unpack = true := by
    rw [unpack_zero]
    exact unpack_le_zero (hsign.symm.trans hnegative) hexponent
  exact decide_eq_true hle

theorem unpack_not_le_zero {u : UnpackedFloat} (h : (UnpackedFloat.zero .positive).lt u = true) :
    u.le (.zero .positive) = false := by
  rcases u with s | _ | s | ⟨s, m, e, hm⟩
  · cases s
    · cases h
    · rfl
  · cases h
  · cases h
  · cases s
    · cases h
    · rfl

theorem not_le_zero_of_zero_lt {x : Float} (h : 0.0 < x) : ¬ x ≤ 0.0 := by
  intro hle
  have hlt : (0.0 : Float).toModel.unpack.lt x.toModel.unpack = true := of_decide_eq_true h
  have hunpack : x.toModel.unpack.le (0.0 : Float).toModel.unpack = true := of_decide_eq_true hle
  rw [unpack_zero] at hlt hunpack
  rw [unpack_not_le_zero hlt] at hunpack
  cases hunpack

namespace Hundredths

/-- What is no number is not at most zero either, and its literal is nothing. -/
theorem value_ofFloat_nonneg {x : Float} (h : ¬ x ≤ 0.0) : 0 ≤ (ofFloat x).value := by
  rw [value_nonneg_iff, ofFloat]
  cases hx : Exact.ofFloat? x with
  | none => exact Int.le_refl 0
  | some v =>
    have hnegative : v.negative = false :=
      Bool.eq_false_iff.2 fun hn => h (Exact.le_zero_of_negative hx hn)
    simp only [hnegative, Bool.false_eq_true, if_false]
    exact Int.natCast_nonneg _

end Hundredths

end IconCode.Decimal

import Mathlib
import IconCode.Geometry.Scalar

/-!
# Doubles

What is needed of the arithmetic of doubles. A sum of doubles is the negative zero only if both of
them are, because a sum that is not exactly nothing is never rounded to nothing. So a sum with a
double that zero can be added to is again one that zero can be added to.

* `isFinite_of_le`: between two numbers there is neither an infinity nor what is no number.
* `Settled.add`: sums that zero can be added to.
-/

namespace IconCode.Double

open Float.Model UnpackedFloat

/-! ## Rounding -/

/-- A finite number as it comes out of rounding: of 53 bits, and in steps that are not below the
smallest one. -/
def IsRounded (u : UnpackedFloat) : Prop :=
  ∃ s m e h, u = .finite s m e h ∧ m < 2 ^ 53 ∧ -1074 ≤ e

theorem targetExponent_eq (m : Nat) (e : Int) :
    Format.binary64.targetExponent (totalExponent m e) = max (m.log2 + 1 + e - 53) (-1074) := by
  rfl

/-- Whether a mantissa is counted in the steps that rounding would count it in. -/
def Canonical (m : Nat) (e : Int) : Prop :=
  Format.binary64.targetExponent (totalExponent m e) = e

theorem canonical_iff {m : Nat} {e : Int} :
    Canonical m e ↔ max (m.log2 + 1 + e - 53) (-1074) = e := by
  rw [Canonical, targetExponent_eq]

theorem mantissa_shiftRight (em : ExtendedMantissa) (n : Nat) :
    (em >>> n).mantissa = em.mantissa / 2 ^ n := by
  change (n.repeat ExtendedMantissa.shiftRightOne em).mantissa = _
  induction n with
  | zero => simp [Nat.repeat]
  | succ n ih =>
    rw [Nat.repeat, ExtendedMantissa.shiftRightOne, ih, Nat.div_div_eq_div_mul, Nat.pow_succ]

theorem mantissa_ofMantissaAndAccuracy (m : Nat) (a : Accuracy) :
    (ExtendedMantissa.ofMantissaAndAccuracy m a).mantissa = m := by
  rcases a with _ | o
  · rfl
  · cases o <;> rfl

theorem mantissa_le_roundedMantissa (em : ExtendedMantissa) : em.mantissa ≤ em.roundedMantissa := by
  rcases em with ⟨m, r, s⟩
  cases r <;> cases s <;>
    simp [ExtendedMantissa.roundedMantissa, ExtendedMantissa.accuracy, Accuracy.roundToNearestEven]

/-- A shift to the target exponent leaves at most 53 bits, and never none. -/
theorem shift_bounds {m : Nat} (hm : 0 < m) {e : Int} (he : -1074 ≤ e) :
    let n := (Format.binary64.targetExponent (totalExponent m e) - e).toNat
    0 < m / 2 ^ n ∧ m / 2 ^ n < 2 ^ 53 := by
  intro n
  have hlow : 2 ^ m.log2 ≤ m := Nat.log2_self_le hm.ne'
  have hhigh : m < 2 ^ (m.log2 + 1) := Nat.lt_log2_self
  have hn : n = m.log2 - 52 := by
    simp only [n, targetExponent_eq]
    omega
  have hle : 2 ^ n ≤ 2 ^ m.log2 := Nat.pow_le_pow_right (by decide) (by omega)
  have hlt : 2 ^ (m.log2 + 1) ≤ 2 ^ 53 * 2 ^ n := by
    rw [← Nat.pow_add]
    exact Nat.pow_le_pow_right (by decide) (by omega)
  refine ⟨Nat.div_pos (hle.trans hlow) (Nat.two_pow_pos n), ?_⟩
  exact (Nat.div_lt_iff_lt_mul (Nat.two_pow_pos n)).2 (hhigh.trans_le hlt)

theorem isRounded_roundWithAccuracy (s : Sign) {m : Nat} (hm : 0 < m) {e : Int} (he : -1074 ≤ e)
    (a : Accuracy) : IsRounded (roundWithAccuracy Format.binary64 s m e a) := by
  unfold roundWithAccuracy shiftToTargetExponent shiftToExponent
  dsimp only
  -- The first shift leaves something, and rounding makes it no less.
  generalize hem : ExtendedMantissa.ofMantissaAndAccuracy m a >>> (_ : Nat) = em
  have hmantissa : 0 < em.mantissa := by
    rw [← hem, mantissa_shiftRight, mantissa_ofMantissaAndAccuracy]
    exact (shift_bounds hm he).1
  have hrounded : 0 < em.roundedMantissa := hmantissa.trans_le (mantissa_le_roundedMantissa em)
  generalize hfirst : e + (_ : Nat) = e'
  have he' : -1074 ≤ e' := by omega
  have hfinal := shift_bounds hrounded he'
  rw [dif_neg]
  · refine ⟨s, _, _, _, rfl, ?_, by omega⟩
    rw [mantissa_shiftRight, mantissa_ofMantissaAndAccuracy]
    exact hfinal.2
  · rw [mantissa_shiftRight, mantissa_ofMantissaAndAccuracy]
    exact hfinal.1.ne'

theorem isRounded_round (s : Sign) {m : Nat} (hm : 0 < m) {e : Int} (he : -1074 ≤ e) :
    IsRounded (UnpackedFloat.round Format.binary64 s m e) := by
  unfold UnpackedFloat.round decreaseExponent
  apply isRounded_roundWithAccuracy
  · rw [Nat.shiftLeft_eq]
    exact Nat.mul_pos hm (Nat.two_pow_pos _)
  · rw [targetExponent_eq]
    omega

/-! ## Zeros -/

/-- What rounding leaves is not written as a zero. -/
theorem IsRounded.pack_ne {u : UnpackedFloat} (h : IsRounded u) (s : Sign) :
    UnpackedFloat.pack Format.binary64 u ≠ packedZero Format.binary64 s := by
  obtain ⟨s', m, e, hm, rfl, hbits, he⟩ := h
  intro heq
  have hexponent :
      (unpackExponent (UnpackedFloat.pack Format.binary64 (.finite s' m e hm))).toNat = 0 := by
    rw [heq, packedZero, unpackExponent_packComponents]
    rfl
  have hmantissa :
      (unpackMantissa (UnpackedFloat.pack Format.binary64 (.finite s' m e hm))).toNat = 0 := by
    rw [heq, packedZero, unpackMantissa_packComponents]
    rfl
  have hbias : Format.binary64.exponentBias = 1023 := by decide
  have hwidth : Format.binary64.mantissaBits = 53 := by decide
  rw [UnpackedFloat.pack, hbias, hwidth] at hexponent hmantissa
  split at hexponent
  · -- Too large, so it is written as an infinity.
    rw [packedInfinity, unpackExponent_packComponents] at hexponent
    exact absurd hexponent (by decide)
  · rename_i hsmall
    rw [if_neg hsmall] at hmantissa
    split at hexponent
    · -- A full mantissa, so the written exponent is at least 1.
      rw [unpackExponent_packComponents, BitVec.toNat_ofNat] at hexponent
      change (e + 1023 + 52).toNat % 2 ^ 11 = 0 at hexponent
      change ¬ 2 ^ 11 ≤ (e + 1023 + 52).toNat + 1 at hsmall
      omega
    · -- A small mantissa, which is written as it is.
      rename_i hfull
      rw [if_neg hfull, unpackMantissa_packComponents, BitVec.toNat_ofNat] at hmantissa
      have hlog : m.log2 < 53 := (Nat.log2_lt hm.ne').2 hbits
      have hlt : m < 2 ^ 52 := (Nat.log2_lt hm.ne').1 (by omega)
      rw [Nat.mod_eq_of_lt hlt] at hmantissa
      omega

theorem toNat_append_implicit (m : BitVec 52) : (1#1 ++ m).toNat = 2 ^ 52 + m.toNat := by
  have hor := Nat.two_pow_add_eq_or_of_lt m.isLt 1
  rw [Nat.mul_one] at hor
  rw [BitVec.toNat_append, hor]
  rfl

theorem canonical_of_unpack {x : Float.Model} {s : Sign} {m : Nat} {e : Int} {hm : 0 < m}
    (h : x.unpack = .finite s m e hm) : Canonical m e := by
  have hbias : (Format.binary64.exponentBias : Int) + Format.binary64.mantissaBitsWithoutImplicit =
      1075 := by
    decide
  have hbits : (@unpackMantissa Format.binary64 x.toBits.toBitVec).toNat < 2 ^ 52 :=
    (@unpackMantissa Format.binary64 x.toBits.toBitVec).isLt
  rw [canonical_iff]
  unfold Float.Model.unpack UnpackedFloat.unpack at h
  simp only [hbias] at h
  split at h
  · split at h <;> cases h
  · split at h
    · -- A small mantissa is counted in the smallest steps.
      rename_i hzero
      have hexponent := congrArg BitVec.toNat hzero
      rw [BitVec.toNat_zero] at hexponent
      split at h
      · cases h
      · cases h
        have hlog := (Nat.log2_lt hm.ne').2 hbits
        omega
    · -- A full mantissa has 53 bits.
      rename_i hzero
      have hpos : 0 < (@unpackExponent Format.binary64 x.toBits.toBitVec).toNat :=
        (BitVec.toNat_pos _).2 ((BitVec.pos_iff_ne_zero _).2 hzero)
      cases h
      have hlog : (1#1 ++ @unpackMantissa Format.binary64 x.toBits.toBitVec).toNat.log2 = 52 := by
        have happend := toNat_append_implicit (@unpackMantissa Format.binary64 x.toBits.toBitVec)
        rw [Nat.log2_eq_iff hm.ne']
        omega
      omega

theorem le_exponent_of_unpack {x : Float.Model} {s : Sign} {m : Nat} {e : Int} {hm : 0 < m}
    (h : x.unpack = .finite s m e hm) : -1074 ≤ e := by
  have hc := canonical_iff.1 (canonical_of_unpack h)
  omega

theorem unpack_pack_eq_iff (u : UnpackedFloat) (s : Sign) :
    (Float.Model.pack u).unpack = .zero s ↔
      UnpackedFloat.pack Format.binary64 u = packedZero Format.binary64 s :=
  unpack_eq_zero_iff_of_valid valid_pack

theorem pack_unpack (x : Float.Model) : Float.Model.pack x.unpack = x := by
  have h : UnpackedFloat.pack Format.binary64 x.unpack = x.toBits.toBitVec :=
    pack_unpack_of_valid x.valid
  simp only [Float.Model.pack, h]

theorem unpack_normalize_ne (m : Int) {e : Int} (he : -1074 ≤ e) :
    (Float.Model.pack (UnpackedFloat.normalize Format.binary64 m e .positive)).unpack ≠
      .zero .negative := by
  rw [Ne, unpack_pack_eq_iff]
  unfold UnpackedFloat.normalize
  split
  · rename_i hm
    exact (isRounded_round _ (by grind) he).pack_ne _
  · decide
  · rename_i hm
    exact (isRounded_round _ (by grind) he).pack_ne _

theorem unpack_notANumber_ne : (Float.Model.pack .notANumber).unpack ≠ .zero .negative := by
  rw [Ne, unpack_pack_eq_iff]
  decide

theorem unpack_infinity_ne (s : Sign) :
    (Float.Model.pack (.infinity s)).unpack ≠ .zero .negative := by
  rw [Ne, unpack_pack_eq_iff]
  cases s <;> decide

theorem unpack_positive_zero_ne : (Float.Model.pack (.zero .positive)).unpack ≠ .zero .negative := by
  rw [Ne, unpack_pack_eq_iff]
  decide

/-- The sum of two doubles is the negative zero only if the second one is. -/
theorem unpack_add_ne (x : Float.Model) {y : Float.Model} (hy : y.unpack ≠ .zero .negative) :
    (x + y).unpack ≠ .zero .negative := by
  change (Float.Model.pack (UnpackedFloat.add Format.binary64 x.unpack y.unpack)).unpack ≠ _
  cases hu : x.unpack with
  | notANumber => exact unpack_notANumber_ne
  | infinity s =>
    cases hv : y.unpack with
    | notANumber => exact unpack_notANumber_ne
    | infinity t =>
      rw [UnpackedFloat.add]
      split
      · exact unpack_infinity_ne s
      · exact unpack_notANumber_ne
    | zero t => exact unpack_infinity_ne s
    | finite t m e hm => exact unpack_infinity_ne s
  | zero s =>
    cases hv : y.unpack with
    | notANumber => exact unpack_notANumber_ne
    | infinity t => exact unpack_infinity_ne t
    | zero t =>
      -- The second zero is positive, so the sum is.
      cases t with
      | negative => exact absurd hv hy
      | positive => cases s <;> exact unpack_positive_zero_ne
    | finite t m e hm =>
      rw [UnpackedFloat.add, ← hv, pack_unpack]
      exact hy
      all_goals simp
  | finite s m e hm =>
    cases hv : y.unpack with
    | notANumber => exact unpack_notANumber_ne
    | infinity t => exact unpack_infinity_ne t
    | zero t =>
      rw [UnpackedFloat.add, ← hu, pack_unpack, hu]
      all_goals simp
    | finite t n f hn =>
      have he := le_exponent_of_unpack hu
      have hf := le_exponent_of_unpack hv
      exact unpack_normalize_ne _ (by omega)

/-! ## Adding zero -/

/-- Whether adding zero leaves a double as it is. It does so with all but the negative zero. -/
def Settled (x : Float) : Prop := x + 0.0 = x

theorem unpacked_add_zero {u : UnpackedFloat} (h : u ≠ .zero .negative) :
    UnpackedFloat.add Format.binary64 u (.zero .positive) = u := by
  rcases u with s | _ | s | ⟨s, m, e, hm⟩
  · rfl
  · rfl
  · cases s with
    | negative => exact absurd rfl h
    | positive => rfl
  · rfl

theorem settled_iff (x : Float) : Settled x ↔ x.toModel.unpack ≠ .zero .negative := by
  have hsum : x + 0.0 =
      ⟨Float.Model.pack (UnpackedFloat.add Format.binary64 x.toModel.unpack (.zero .positive))⟩ :=
    rfl
  rw [Settled, hsum]
  constructor
  · intro h hneg
    have hpositive := congrArg (·.toModel.unpack) h
    rw [hneg] at hpositive
    exact unpack_positive_zero_ne hpositive
  · intro h
    rw [unpacked_add_zero h, pack_unpack]

theorem settled_zero : Settled 0.0 := by
  rw [settled_iff]
  exact unpack_positive_zero_ne

/-- A sum is settled if its second part is. -/
theorem Settled.add (x : Float) {y : Float} (h : Settled y) : Settled (x + y) := by
  rw [settled_iff] at h ⊢
  exact unpack_add_ne x.toModel h

/-! ## Comparing -/

theorem le_negative_infinity {u : UnpackedFloat} (h : u.isFinite = true) :
    u.le (.infinity .negative) = false := by
  rcases u with s | _ | s | ⟨s, m, e, hm⟩
  · cases h
  · cases h
  · rfl
  · rfl

theorem positive_infinity_le {u : UnpackedFloat} (h : u.isFinite = true) :
    (UnpackedFloat.infinity .positive).le u = false := by
  rcases u with s | _ | s | ⟨s, m, e, hm⟩
  · cases h
  · cases h
  · rfl
  · rfl

theorem le_notANumber (u : UnpackedFloat) : u.le .notANumber = false := by
  cases u <;> rfl

theorem unpacked_isFinite_of_le {low u high : UnpackedFloat} (hlow : low.isFinite = true)
    (hhigh : high.isFinite = true) (hl : low.le u = true) (hh : u.le high = true) :
    u.isFinite = true := by
  rcases u with s | _ | s | ⟨s, m, e, hm⟩
  · cases s with
    | negative => simp [le_negative_infinity hlow] at hl
    | positive => simp [positive_infinity_le hhigh] at hh
  · simp [le_notANumber] at hl
  · rfl
  · rfl

/-- A double between finite ones is finite. -/
theorem isFinite_of_le {low x high : Float} (hlow : low.isFinite = true)
    (hhigh : high.isFinite = true) (hl : low ≤ x) (hh : x ≤ high) : x.isFinite = true :=
  unpacked_isFinite_of_le hlow hhigh (of_decide_eq_true hl) (of_decide_eq_true hh)

end IconCode.Double

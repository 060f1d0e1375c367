import IconCode.Proofs.Geometry.Double

/-!
# Twice a double

Twice a double is again a double, or it is infinite. So a double that is taken away from its own
double is left as it is, as long as there is no overflow.

* `roundWithAccuracy_of_canonical`: rounding keeps what need not be rounded.
* `unpack_pack_of_canonical`: so does writing it down, up to an overflow.
* `two_mul_sub_self`: twice a double without the double.
-/

namespace IconCode.Double

open Float.Model UnpackedFloat

/-! ## Numbers that need no rounding -/

theorem log2_mul_two_pow {m : Nat} (hm : 0 < m) (k : Nat) : (m * 2 ^ k).log2 = m.log2 + k := by
  have hpos : m * 2 ^ k ≠ 0 := (Nat.mul_pos hm (Nat.two_pow_pos k)).ne'
  have hlow : 2 ^ m.log2 ≤ m := Nat.log2_self_le hm.ne'
  have hhigh : m < 2 ^ (m.log2 + 1) := Nat.lt_log2_self
  rw [Nat.log2_eq_iff hpos, Nat.pow_add, Nat.add_right_comm, Nat.pow_add _ _ k]
  exact ⟨Nat.mul_le_mul_right _ hlow, Nat.mul_lt_mul_of_pos_right hhigh (Nat.two_pow_pos k)⟩

/-- A number written in finer steps is rounded to the same steps. -/
theorem Canonical.targetExponent_finer {m : Nat} {e : Int} (h : Canonical m e) (hm : 0 < m)
    (k : Nat) : Format.binary64.targetExponent (totalExponent (m * 2 ^ k) (e - k)) = e := by
  rw [canonical_iff] at h
  rw [targetExponent_eq, log2_mul_two_pow hm]
  omega

theorem shiftRight_exact (m k : Nat) :
    ExtendedMantissa.ofMantissaAndAccuracy (m * 2 ^ k) .exact >>> k = ⟨m, false, false⟩ := by
  change k.repeat ExtendedMantissa.shiftRightOne ⟨m * 2 ^ k, false, false⟩ = _
  induction k generalizing m with
  | zero => simp [Nat.repeat]
  | succ k ih =>
    have htwice : m * 2 ^ (k + 1) = 2 * m * 2 ^ k := by
      rw [Nat.pow_succ]
      ac_rfl
    rw [Nat.repeat, htwice, ih, ExtendedMantissa.shiftRightOne]
    simp

theorem Canonical.shiftToTargetExponent_eq {m : Nat} {e : Int} (h : Canonical m e) (hm : 0 < m)
    (k : Nat) :
    shiftToTargetExponent Format.binary64 (m * 2 ^ k) (e - k) .exact = (⟨m, false, false⟩, e) := by
  have hshift : (e - (e - k)).toNat = k := by omega
  have hback : e - k + (k : Nat) = e := by omega
  rw [shiftToTargetExponent, h.targetExponent_finer hm, shiftToExponent, hshift,
    shiftRight_exact, hback]

theorem roundWithAccuracy_of_canonical (s : Sign) {m : Nat} {e : Int} (h : Canonical m e)
    (hm : 0 < m) (k : Nat) :
    roundWithAccuracy Format.binary64 s (m * 2 ^ k) (e - k) .exact = .finite s m e hm := by
  have hagain : shiftToTargetExponent Format.binary64 m e .exact = (⟨m, false, false⟩, e) := by
    simpa using h.shiftToTargetExponent_eq hm 0
  have hrounded : (ExtendedMantissa.mk m false false).roundedMantissa = m := rfl
  rw [roundWithAccuracy, h.shiftToTargetExponent_eq hm k]
  simp only [hrounded, hagain]
  rw [dif_neg hm.ne']

theorem round_of_canonical (s : Sign) {m : Nat} {e : Int} (h : Canonical m e) (hm : 0 < m) :
    UnpackedFloat.round Format.binary64 s m e = .finite s m e hm := by
  have hexact := roundWithAccuracy_of_canonical s h hm 0
  have htarget : Format.binary64.targetExponent (totalExponent m e) = e := h
  rw [UnpackedFloat.round, htarget]
  simpa [decreaseExponent] using hexact

/-! ## Written numbers -/

/-- A written number with bits in its exponent has one bit more than its mantissa shows. -/
theorem unpack_full (s : Sign) {b : Nat} (hpos : 0 < b) (hlt : b < 2047) {m : BitVec 52} {k : Nat}
    (hk : 2 ^ 52 + m.toNat = k) (hkpos : 0 < k) :
    UnpackedFloat.unpack Format.binary64 (packComponents Format.binary64 s (.ofNat 11 b) m) =
      .finite s k (b - 1075) hkpos := by
  have hbits : (BitVec.ofNat 11 b).toNat = b := by
    rw [BitVec.toNat_ofNat]
    omega
  have hmax : BitVec.ofNat 11 b ≠ -1#11 := by
    intro h
    have hvalue := congrArg BitVec.toNat h
    rw [hbits] at hvalue
    exact absurd hvalue (by change b ≠ 2047; omega)
  have hzero : BitVec.ofNat 11 b ≠ 0#11 := by
    intro h
    have hvalue := congrArg BitVec.toNat h
    rw [hbits] at hvalue
    exact absurd hvalue (by change b ≠ 0; omega)
  unfold UnpackedFloat.unpack
  simp only [unpackMantissa_packComponents, unpackExponent_packComponents,
    unpackSign_packComponents, Sign.ofBitVec_toBitVec]
  rw [if_neg hmax, if_neg hzero]
  simp only [toNat_append_implicit, hbits, hk]
  rfl

/-- A written number without bits in its exponent is counted in the smallest steps. -/
theorem unpack_small (s : Sign) {m : BitVec 52} {k : Nat} (hk : m.toNat = k) (hpos : 0 < k) :
    UnpackedFloat.unpack Format.binary64 (packComponents Format.binary64 s 0 m) =
      .finite s k (-1074) hpos := by
  have hzero : m ≠ 0#52 := by
    rintro rfl
    exact absurd hk (by change ¬ 0 = k; omega)
  unfold UnpackedFloat.unpack
  simp only [unpackMantissa_packComponents, unpackExponent_packComponents,
    unpackSign_packComponents, Sign.ofBitVec_toBitVec]
  have hexponent : (0 : BitVec 11) = 0#11 := rfl
  rw [if_neg (by decide), if_pos hexponent, dif_neg hzero]
  simp only [hk]
  rfl

/-- An exponent as it is written. -/
def biased (e : Int) : Nat := (e + Format.binary64.exponentBias + (52 : Nat)).toNat

theorem biased_eq (e : Int) : biased e = (e + 1075).toNat := by
  have hbias : (Format.binary64.exponentBias : Int) = 1023 := by decide
  rw [biased, hbias, add_assoc]
  rfl

theorem pack_finite (s : Sign) {m : Nat} {e : Int} (hm : 0 < m) :
    UnpackedFloat.pack Format.binary64 (.finite s m e hm) =
      if 2 ^ 11 ≤ biased e + 1 then packedInfinity Format.binary64 s
      else if m.log2 + 1 = 53 then
        packComponents Format.binary64 s (.ofNat 11 (biased e)) (.ofNat 52 m)
      else packComponents Format.binary64 s 0 (.ofNat 52 m) :=
  rfl

/-- What is too large is written as an infinity. -/
theorem large_iff {e : Int} : 2 ^ 11 ≤ biased e + 1 ↔ 971 < e := by
  rw [biased_eq]
  omega

theorem isFinite_unpack_pack_of_large (s : Sign) {m : Nat} {e : Int} (hm : 0 < m)
    (he : 971 < e) : (Float.Model.pack (.finite s m e hm)).unpack.isFinite = false := by
  change (UnpackedFloat.unpack Format.binary64 (UnpackedFloat.pack Format.binary64 _)).isFinite = _
  rw [pack_finite, if_pos (large_iff.2 he)]
  cases s <;> rfl

theorem unpack_pack_of_canonical (s : Sign) {m : Nat} {e : Int} (h : Canonical m e) (hm : 0 < m)
    (he : e ≤ 971) : (Float.Model.pack (.finite s m e hm)).unpack = .finite s m e hm := by
  rw [canonical_iff] at h
  change UnpackedFloat.unpack Format.binary64 (UnpackedFloat.pack Format.binary64 _) = _
  rw [pack_finite, if_neg (mt large_iff.1 (by omega))]
  by_cases hfull : m.log2 + 1 = 53
  · have hlog : m.log2 = 52 := Nat.succ.inj hfull
    obtain ⟨hlow, hhigh⟩ := (Nat.log2_eq_iff hm.ne').1 hlog
    have hmantissa : 2 ^ 52 + (BitVec.ofNat 52 m).toNat = m := by
      rw [BitVec.toNat_ofNat]
      omega
    have hpos : 0 < biased e := by
      rw [biased_eq]
      omega
    have hsmall : biased e < 2047 := by
      rw [biased_eq]
      omega
    have hexponent : (biased e : Int) - 1075 = e := by
      rw [biased_eq]
      omega
    rw [if_pos hfull]
    simpa only [hexponent] using unpack_full s hpos hsmall hmantissa hm
  · have hlog : m.log2 < 52 := by
      have hne : m.log2 ≠ 52 := fun hlog => hfull (congrArg Nat.succ hlog)
      omega
    have hmantissa : (BitVec.ofNat 52 m).toNat = m := by
      rw [BitVec.toNat_ofNat, Nat.mod_eq_of_lt ((Nat.log2_lt hm.ne').1 hlog)]
    have hexponent : e = -1074 := by omega
    subst hexponent
    rw [if_neg hfull]
    exact unpack_small s hmantissa hm

/-! ## Doubling -/

/-- Twice a number has the same mantissa in the next steps, or else, if the steps are the smallest
ones, twice the mantissa. -/
theorem Canonical.exists_twice {m : Nat} {e : Int} (h : Canonical m e) (hm : 0 < m) :
    ∃ m' e' k, 0 < m' ∧ Canonical m' e' ∧ 2 ^ 52 * m = m' * 2 ^ k ∧ e - 51 = e' - (k : Nat) ∧
      e ≤ e' ∧ m' * 2 ^ (e' - e).toNat = 2 * m := by
  rw [canonical_iff] at h
  by_cases hfull : m.log2 = 52
  · have hstep : (e + 1 - e).toNat = 1 := by omega
    refine ⟨m, e + 1, 52, hm, ?_, Nat.mul_comm _ _, by omega, by omega, ?_⟩
    · rw [canonical_iff]
      omega
    · rw [hstep, pow_one, Nat.mul_comm]
  · have hlog := log2_mul_two_pow hm 1
    have hstep : (e - e).toNat = 0 := by omega
    rw [pow_one] at hlog
    refine ⟨m * 2, e, 51, by omega, ?_, by omega, by omega, by omega, ?_⟩
    · rw [canonical_iff]
      omega
    · rw [hstep, pow_zero, Nat.mul_one, Nat.mul_comm]

theorem normalize_apply (s z : Sign) {m : Nat} (hm : 0 < m) (e : Int) :
    UnpackedFloat.normalize Format.binary64 (s.apply m) e z =
      UnpackedFloat.round Format.binary64 s m e := by
  unfold UnpackedFloat.normalize
  cases s with
  | positive =>
    have hgt : compare (m : Int) 0 = .gt := Int.compare_eq_gt.2 (by omega)
    simp [Sign.apply, hgt]
  | negative =>
    have hlt : compare (-(m : Int)) 0 = .lt := Int.compare_eq_lt.2 (by omega)
    simp [Sign.apply, hlt]

theorem sub_of_twice (s : Sign) {m m' : Nat} {e e' : Int} (h : Canonical m e) (hm : 0 < m)
    (hm' : 0 < m') (hle : e ≤ e') (htwice : m' * 2 ^ (e' - e).toNat = 2 * m) :
    UnpackedFloat.sub Format.binary64 (.finite s m' e' hm') (.finite s m e hm) =
      .finite s m e hm := by
  have hmin : min e' e = e := min_eq_right hle
  have hstep : (e - e).toNat = 0 := by omega
  have hdifference : s.apply (2 * m : Nat) - s.apply (m : Nat) = s.apply (m : Nat) := by
    cases s <;> simp only [Sign.apply] <;> omega
  rw [UnpackedFloat.sub, hmin]
  simp only [decreaseExponent, Nat.shiftLeft_eq, htwice, hstep, pow_zero, Nat.mul_one, hdifference]
  rw [normalize_apply s _ hm, round_of_canonical s h hm]

theorem unpack_two : (2.0 : Float).toModel.unpack = .finite .positive (2 ^ 52) (-51) (by decide) := by
  rfl

/-- Twice a double as it is unpacked again, if it is finite, less the double itself. -/
theorem sub_unpack_twice {u : UnpackedFloat} (hzero : u ≠ .zero .negative)
    (hcanonical : ∀ s m e hm, u = .finite s m e hm → Canonical m e)
    (hfinite : (Float.Model.pack (UnpackedFloat.mul Format.binary64
      (.finite .positive (2 ^ 52) (-51) (by decide)) u)).unpack.isFinite = true) :
    UnpackedFloat.sub Format.binary64 (Float.Model.pack (UnpackedFloat.mul Format.binary64
      (.finite .positive (2 ^ 52) (-51) (by decide)) u)).unpack u = u := by
  cases u with
  | notANumber => exact absurd hfinite (by decide)
  | infinity s => cases s <;> exact absurd hfinite (by decide)
  | zero s =>
    cases s with
    | negative => exact absurd rfl hzero
    | positive => rfl
  | finite s m e hm =>
    have hc := hcanonical s m e hm rfl
    obtain ⟨m', e', k, hm', hc', hmantissa, hexponent, hle, htwice⟩ := hc.exists_twice hm
    have hsign : Sign.positive * s = s := by cases s <;> rfl
    have hproduct : UnpackedFloat.mul Format.binary64
        (.finite .positive (2 ^ 52) (-51) (by decide)) (.finite s m e hm) =
          .finite s m' e' hm' := by
      rw [UnpackedFloat.mul, hsign, hmantissa, neg_add_eq_sub, hexponent]
      exact roundWithAccuracy_of_canonical s hc' hm' k
    rw [hproduct] at hfinite ⊢
    by_cases he : 971 < e'
    · rw [isFinite_unpack_pack_of_large s hm' he] at hfinite
      cases hfinite
    · rw [unpack_pack_of_canonical s hc' hm' (by omega)]
      exact sub_of_twice s hc hm hm' hle htwice

/-- A double taken away from twice itself. -/
theorem two_mul_sub_self {x : Float} (hs : Settled x) (hf : (2.0 * x).isFinite = true) :
    2.0 * x - x = x := by
  have htwice : 2.0 * x = ⟨Float.Model.pack (UnpackedFloat.mul Format.binary64
      (2.0 : Float).toModel.unpack x.toModel.unpack)⟩ := rfl
  have hdifference : 2.0 * x - x = ⟨Float.Model.pack (UnpackedFloat.sub Format.binary64
      (2.0 * x).toModel.unpack x.toModel.unpack)⟩ := rfl
  rw [unpack_two] at htwice
  rw [settled_iff] at hs
  have hmodel : (2.0 * x).isFinite = (2.0 * x).toModel.unpack.isFinite := rfl
  rw [hmodel, htwice] at hf
  rw [hdifference, htwice, sub_unpack_twice hs (fun s m e hm h => canonical_of_unpack h) hf,
    pack_unpack]

end IconCode.Double

import Mathlib
import IconCode.Geometry.Basic

/-!
# Real numbers as scalars

What a construction means is seen where its arithmetic is exact.

* `isZero_iff`, `abs_eq`, `atLeast_eq`, `atMost_eq`: what is computed with comparisons.
* `Point.cross`, `SameSign`: which way a direction turns.
-/

namespace IconCode

noncomputable instance : Scalar ℝ where
  toAdd := inferInstance
  toSub := inferInstance
  toMul := inferInstance
  toDiv := inferInstance
  toNeg := inferInstance
  toOfScientific := inferInstance
  below x y := decide (x < y)
  equal x y := decide (x = y)
  sqrt := Real.sqrt
  sin := Real.sin
  cos := Real.cos
  acos := Real.arccos
  pi := Real.pi
  ofCount n := n
  ceiling x := ⌈x⌉₊

namespace Scalar

theorem below_iff (x y : ℝ) : below x y = true ↔ x < y := decide_eq_true_iff

theorem literal_zero : (0.0 : ℝ) = 0 := by norm_num

theorem literal_one : (1.0 : ℝ) = 1 := by norm_num

theorem isZero_iff (x : ℝ) : isZero x = true ↔ x = 0 := by
  rw [isZero, literal_zero]
  exact decide_eq_true_iff

theorem abs_eq (x : ℝ) : abs x = |x| := by
  rw [abs, literal_zero]
  split
  · rename_i h
    exact (abs_of_neg ((below_iff x 0).1 h)).symm
  · rename_i h
    rw [below_iff, not_lt] at h
    exact (abs_of_nonneg h).symm

theorem atLeast_eq (bound x : ℝ) : atLeast bound x = max bound x := by
  rw [atLeast]
  split
  · rename_i h
    exact (max_eq_right ((below_iff bound x).1 h).le).symm
  · rename_i h
    rw [below_iff, not_lt] at h
    exact (max_eq_left h).symm

theorem atMost_eq (bound x : ℝ) : atMost bound x = min bound x := by
  rw [atMost]
  split
  · rename_i h
    exact (min_eq_right ((below_iff x bound).1 h).le).symm
  · rename_i h
    rw [below_iff, not_lt] at h
    exact (min_eq_left h).symm

theorem tau_eq : (tau : ℝ) = 2 * Real.pi := by
  have htwo : (2.0 : ℝ) = 2 := by norm_num
  rw [tau, htwo]
  rfl

theorem ofCount_zero : (ofCount 0 : ℝ) = 0 := Nat.cast_zero

theorem ofCount_succ (n : Nat) : (ofCount (n + 1) : ℝ) = ofCount n + 1 := Nat.cast_succ n

theorem cos_mul_self_add (t : ℝ) : cos t * cos t + sin t * sin t = 1 := by
  have h := Real.cos_sq_add_sin_sq t
  rw [sq, sq] at h
  exact h

end Scalar

/-! ## Turning -/

section Turning

variable {α : Type} [Scalar α]

@[simp] theorem Point.sub_x (p q : Point α) : (p - q).x = p.x - q.x := rfl

@[simp] theorem Point.sub_y (p q : Point α) : (p - q).y = p.y - q.y := rfl

/-- The cross product of two directions, positive if the second one turns towards growing angles. -/
def Point.cross (p q : Point α) : α := p.x * q.y - p.y * q.x

/-- Whether two numbers are both above, both below or both neither above nor below zero. -/
structure SameSign (x y : α) : Prop where
  above : Scalar.below 0.0 x = Scalar.below 0.0 y
  below : Scalar.below x 0.0 = Scalar.below y 0.0

end Turning

theorem sameSign_iff_of_pos {x : ℝ} (hx : 0 < x) (y : ℝ) : SameSign x y ↔ 0 < y := by
  constructor
  · intro h
    have habove := h.above
    rw [Scalar.literal_zero, (Scalar.below_iff 0 x).2 hx] at habove
    exact (Scalar.below_iff 0 y).1 habove.symm
  · intro hy
    constructor
    · rw [Scalar.literal_zero, (Scalar.below_iff 0 x).2 hx, (Scalar.below_iff 0 y).2 hy]
    · rw [Scalar.literal_zero, Bool.eq_iff_iff, Scalar.below_iff, Scalar.below_iff]
      exact iff_of_false hx.not_gt hy.not_gt

end IconCode

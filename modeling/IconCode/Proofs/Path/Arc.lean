import IconCode.Proofs.Geometry.Real
import IconCode.Path.Arc

/-!
# Arcs and the direction of travel

A curve on the unit circle has its control points where those of a quarter turn towards growing
angles belong, whichever way it goes. Along an arc with a sweep the angles do grow, and along one
without a sweep they fall, so the curves of the latter set out and arrive backwards.

* `not_follows`: with doubles, some curve does not follow the angle it spans.
* `Ellipse.Proper.follows_seen_iff`: curves on the ellipse turn as those on the circle do.
* `exists_span`: the sweep decides the sign of the angle to travel.
* `follows_iff_sweep`: which curves follow the direction of travel.
-/

namespace IconCode.Arc

open Scalar

/-! ## Curves that follow an angle -/

section Following

variable {α : Type} [Scalar α]

/-- The point of the unit circle at an angle. -/
def onCircle (t : α) : Point α := ⟨cos t, sin t⟩

namespace Curve

def map (f : Point α → Point α) (c : Curve α) : Curve α :=
  ⟨f c.control₁, f c.control₂, f c.target⟩

/-- Whether a curve that begins at `p` turns about the origin the way an angle does, both where it
leaves `p` and where it reaches its target. -/
structure Follows (c : Curve α) (p : Point α) (delta : α) : Prop where
  leaving : SameSign (p.cross (c.control₁ - p)) delta
  arriving : SameSign (c.target.cross (c.target - c.control₂)) delta

end Curve

/-- The angle that each curve of an arc spans. -/
def Span.step (s : Span α) : α := s.delta / ofCount (quarters s.delta)

/-- A point drawn on the ellipse, as seen from the centre. -/
def Ellipse.seen (e : Ellipse α) (p : Point α) : Point α := e.map p - e.center

/-- A curve leaves its first point in the same direction whatever it spans. -/
theorem control₁_unitArc (start delta delta' : α) :
    (unitArc start delta).control₁ = (unitArc start delta').control₁ := rfl

end Following

/-- Two spans of different signs ask for different directions. -/
theorem not_follows : ¬ ∀ start delta : Float, isZero delta = false →
    (unitArc start delta).Follows (onCircle start) delta := by
  intro h
  have hforth := (h 0.0 1.0 (by decide +kernel)).leaving.above
  have hback := (h 0.0 (-1.0) (by decide +kernel)).leaving.above
  rw [control₁_unitArc 0.0 1.0 (-1.0), hback] at hforth
  exact absurd hforth (by decide +kernel)

/-! ## Turning -/

theorem kappa_pos : (0 : ℝ) < kappa := by
  unfold kappa
  norm_num

theorem cross_leaving (start delta : ℝ) :
    (onCircle start).cross ((unitArc start delta).control₁ - onCircle start) = kappa := by
  have hcircle := cos_mul_self_add start
  simp only [Point.cross, Point.sub_x, Point.sub_y, unitArc, onCircle]
  linear_combination kappa * hcircle

theorem cross_arriving (start delta : ℝ) :
    (unitArc start delta).target.cross
      ((unitArc start delta).target - (unitArc start delta).control₂) = kappa := by
  have hcircle := cos_mul_self_add (start + delta)
  simp only [Point.cross, Point.sub_x, Point.sub_y, unitArc]
  linear_combination kappa * hcircle

theorem Curve.follows_iff {c : Curve ℝ} {p : Point ℝ} {turn : ℝ} (hturn : 0 < turn)
    (hleaving : p.cross (c.control₁ - p) = turn)
    (harriving : c.target.cross (c.target - c.control₂) = turn) (delta : ℝ) :
    c.Follows p delta ↔ 0 < delta := by
  have hsign := sameSign_iff_of_pos hturn delta
  constructor
  · intro h
    have hsame := h.leaving
    rw [hleaving] at hsame
    exact hsign.1 hsame
  · intro h
    exact ⟨hleaving ▸ hsign.2 h, harriving ▸ hsign.2 h⟩

/-- An ellipse that stretches the unit circle, turns it and moves it. -/
structure Ellipse.Proper (e : Ellipse ℝ) : Prop where
  width_pos : 0 < e.radius.width
  height_pos : 0 < e.radius.height
  circle : e.cosine * e.cosine + e.sine * e.sine = 1

theorem Ellipse.Proper.cross_seen {e : Ellipse ℝ} (h : e.Proper) (p q q' : Point ℝ) :
    (e.seen p).cross (e.seen q - e.seen q') =
      e.radius.width * e.radius.height * p.cross (q - q') := by
  have hcircle := h.circle
  simp only [Point.cross, Point.sub_x, Point.sub_y, seen, map]
  linear_combination e.radius.width * e.radius.height *
    (p.x * (q.y - q'.y) - p.y * (q.x - q'.x)) * hcircle

theorem follows_unitArc_iff (start delta angle : ℝ) :
    (unitArc start delta).Follows (onCircle start) angle ↔ 0 < angle :=
  Curve.follows_iff kappa_pos (cross_leaving start delta) (cross_arriving start delta) angle

/-- An ellipse keeps the side that a curve turns to. -/
theorem Ellipse.Proper.follows_seen_iff {e : Ellipse ℝ} (h : e.Proper) (start delta angle : ℝ) :
    ((unitArc start delta).map e.seen).Follows (e.seen (onCircle start)) angle ↔ 0 < angle := by
  have hturn : 0 < e.radius.width * e.radius.height * kappa :=
    mul_pos (mul_pos h.width_pos h.height_pos) kappa_pos
  refine Curve.follows_iff hturn ?_ ?_ angle
  · rw [Curve.map, h.cross_seen, cross_leaving]
  · rw [Curve.map, h.cross_seen, cross_arriving]

/-! ## Angles -/

theorem acos_pos {x : ℝ} (h : x < 1) : 0 < acos (atMost 1.0 (atLeast (-1.0) x)) := by
  rw [atMost_eq, atLeast_eq, literal_one]
  refine Real.arccos_pos.2 (min_lt_of_right_lt (max_lt ?_ h))
  norm_num

/-- Between two directions of the same length that are not the same there is an angle, of at most
half a turn. -/
theorem angle_bounds {u v : Point ℝ} {k : ℝ} (hu : u.x * u.x + u.y * u.y = k)
    (hv : v.x * v.x + v.y * v.y = k) (hdot : u.x * v.x + u.y * v.y < k) (hk : 0 < k) :
    angle u v ≠ 0 ∧ |angle u v| ≤ Real.pi := by
  have hsqrt : sqrt k * sqrt k = k := Real.mul_self_sqrt hk.le
  have hratio : (u.x * v.x + u.y * v.y) / k < 1 := (div_lt_one hk).2 hdot
  have hpos := acos_pos hratio
  have hle : acos (atMost 1.0 (atLeast (-1.0) ((u.x * v.x + u.y * v.y) / k))) ≤ Real.pi :=
    Real.arccos_le_pi _
  simp only [angle, hu, hv, hsqrt]
  generalize acos (atMost 1.0 (atLeast (-1.0) ((u.x * v.x + u.y * v.y) / k))) = turn at hpos hle
  split
  · have hneg : -1.0 * turn = -turn := by norm_num
    rw [hneg, abs_neg, abs_of_pos hpos]
    exact ⟨neg_ne_zero.2 hpos.ne', hle⟩
  · have hone : 1.0 * turn = turn := by norm_num
    rw [hone, abs_of_pos hpos]
    exact ⟨hpos.ne', hle⟩

theorem directed_true_pos {delta : ℝ} (hne : delta ≠ 0) (h : |delta| ≤ Real.pi) :
    0 < directed true delta := by
  obtain ⟨hlow, -⟩ := abs_le.1 h
  have hpi := Real.pi_pos
  simp only [directed, Bool.not_true, Bool.false_and, Bool.false_eq_true, if_false, Bool.true_and,
    literal_zero, below_iff, tau_eq]
  split
  · linarith
  · rename_i hnot
    exact lt_of_le_of_ne (not_lt.1 hnot) hne.symm

theorem directed_false_neg {delta : ℝ} (hne : delta ≠ 0) (h : |delta| ≤ Real.pi) :
    directed false delta < 0 := by
  obtain ⟨-, hhigh⟩ := abs_le.1 h
  have hpi := Real.pi_pos
  simp only [directed, Bool.not_false, Bool.true_and, Bool.false_and, Bool.false_eq_true, if_false,
    literal_zero, below_iff, tau_eq]
  split
  · linarith
  · rename_i hnot
    exact lt_of_le_of_ne (not_lt.1 hnot) hne

/-- The angle between the ends of a chord, seen from a point on the line through its middle that is
at right angles to it. -/
theorem chord_bounds {a b : ℝ} (h : 0 < a * a + b * b) (root : ℝ) :
    let u : Point ℝ := ⟨a - root * b, b + root * a⟩
    let v : Point ℝ := ⟨-a - root * b, -b + root * a⟩
    angle u v ≠ 0 ∧ |angle u v| ≤ Real.pi := by
  intro u v
  have hk : 0 < (a * a + b * b) * (1 + root * root) :=
    mul_pos h (by nlinarith [mul_self_nonneg root])
  refine angle_bounds (k := (a * a + b * b) * (1 + root * root)) ?_ ?_ ?_ hk
  · simp only [u]
    ring
  · simp only [v]
    ring
  · simp only [u, v]
    nlinarith

/-! ## Arcs between points -/

/-- A radius stays positive when it is scaled up. -/
theorem scaled_pos {x : ℝ} (h : 0 < x) (lambda : ℝ) :
    0 < if below 1.0 lambda then x * sqrt lambda else x := by
  split
  · rename_i hlarge
    rw [below_iff, literal_one] at hlarge
    exact mul_pos h (Real.sqrt_pos.2 (zero_lt_one.trans hlarge))
  · exact h

theorem sum_squares_pos_iff (x y : ℝ) : 0 < x * x + y * y ↔ ¬ (x = 0 ∧ y = 0) := by
  have hnonneg : 0 ≤ x * x + y * y := add_nonneg (mul_self_nonneg x) (mul_self_nonneg y)
  rw [hnonneg.lt_iff_ne', Ne, mul_self_add_mul_self_eq_zero]

theorem halves_ne_zero {p q : Point ℝ} (h : p ≠ q) :
    ¬ ((p.x - q.x) / 2.0 = 0 ∧ (p.y - q.y) / 2.0 = 0) := by
  have htwo : (2.0 : ℝ) ≠ 0 := by norm_num
  obtain ⟨x, y⟩ := p
  obtain ⟨x', y'⟩ := q
  rintro ⟨hx, hy⟩
  rw [div_eq_zero_iff, or_iff_left htwo, sub_eq_zero] at hx hy
  exact h (congrArg₂ Point.mk hx hy)

/-- A rotation keeps the length of a chord. -/
theorem rotated_pos {sine cosine x y : ℝ} (hcircle : cosine * cosine + sine * sine = 1)
    (h : ¬ (x = 0 ∧ y = 0)) :
    0 < (cosine * x + sine * y) * (cosine * x + sine * y) +
      (-sine * x + cosine * y) * (-sine * x + cosine * y) := by
  have hlength : (cosine * x + sine * y) * (cosine * x + sine * y) +
      (-sine * x + cosine * y) * (-sine * x + cosine * y) = x * x + y * y := by
    linear_combination (x * x + y * y) * hcircle
  rw [hlength]
  exact (sum_squares_pos_iff x y).2 h

theorem stretched_pos {x y a b : ℝ} (h : 0 < x * x + y * y) (ha : 0 < a) (hb : 0 < b) :
    0 < x / a * (x / a) + y / b * (y / b) := by
  rw [sum_squares_pos_iff] at h ⊢
  rw [div_eq_zero_iff, or_iff_left ha.ne', div_eq_zero_iff, or_iff_left hb.ne']
  exact h

/-- The ends of a chord on the unit circle around the centre. -/
theorem from_center {rx ry : ℝ} (hrx : 0 < rx) (hry : 0 < ry) (x y root : ℝ) :
    (x - root * rx / ry * y) / rx = x / rx - root * (y / ry) ∧
      (x - root * -ry / rx * y) / ry = x / ry + root * (y / rx) := by
  constructor
  · field_simp
  · field_simp
    ring

/-- The angle to travel has the sign that the sweep asks for. -/
theorem exists_span (r : Request ℝ) (hw : r.radius.width ≠ 0) (hh : r.radius.height ≠ 0)
    (hne : r.start ≠ r.stop) :
    ∃ s, span? r = some s ∧ s.ellipse.Proper ∧ s.delta ≠ 0 ∧ (0 < s.delta ↔ r.sweep = true) := by
  unfold span?
  rw [if_neg (by simp [isZero_iff, hw, hh])]
  extract_lets phi sine cosine dx dy px py rx₀ ry₀ lambda large rx ry reach radicand root cx cy
    center u v
  have hcircle : cosine * cosine + sine * sine = 1 := cos_mul_self_add phi
  have hp : 0 < px * px + py * py := rotated_pos hcircle (halves_ne_zero hne)
  have hpne : ¬ (isZero px && isZero py) = true := by
    rw [Bool.and_eq_true, isZero_iff, isZero_iff]
    exact (sum_squares_pos_iff px py).1 hp
  rw [if_neg hpne]
  have hrx₀ : 0 < rx₀ := by
    simp only [rx₀, abs_eq]
    exact abs_pos.2 hw
  have hry₀ : 0 < ry₀ := by
    simp only [ry₀, abs_eq]
    exact abs_pos.2 hh
  have hrx : 0 < rx := scaled_pos hrx₀ lambda
  have hry : 0 < ry := scaled_pos hry₀ lambda
  -- On the unit circle the chord is twice this vector.
  have hchord := stretched_pos hp hrx hry
  have hu : u = ⟨px / rx - root * (py / ry), py / ry + root * (px / rx)⟩ :=
    congrArg₂ Point.mk (from_center hrx hry px py root).1 (from_center hrx hry py px root).2
  have hv : v = ⟨-(px / rx) - root * (py / ry), -(py / ry) + root * (px / rx)⟩ := by
    rw [← neg_div, ← neg_div]
    exact congrArg₂ Point.mk (from_center hrx hry (-px) py root).1
      (from_center hrx hry (-py) px root).2
  obtain ⟨hangle, hhalf⟩ := chord_bounds hchord root
  rw [← hu, ← hv] at hangle hhalf
  refine ⟨_, rfl, ⟨hrx, hry, hcircle⟩, ?_⟩
  cases hs : r.sweep with
  | true =>
    have hpos := directed_true_pos hangle hhalf
    exact ⟨hpos.ne', iff_of_true hpos rfl⟩
  | false =>
    have hneg := directed_false_neg hangle hhalf
    exact ⟨hneg.ne, iff_of_false hneg.not_gt (by simp)⟩

/-- The curves of an arc begin one after the other. -/
theorem curves_eq (delta : ℝ) (n : Nat) (start : ℝ) :
    curves delta n start =
      (List.range n).map fun k => unitArc (start + ofCount k * delta) delta := by
  induction n generalizing start with
  | zero => rfl
  | succ n ih =>
    have hzero : start + ofCount 0 * delta = start := by
      rw [ofCount_zero]
      ring
    have hsucc : ∀ k, start + ofCount (k + 1) * delta = start + delta + ofCount k * delta := by
      intro k
      rw [ofCount_succ]
      ring
    rw [curves, ih, List.range_succ_eq_map, List.map_cons, List.map_map, hzero]
    simp only [Function.comp_def, Nat.succ_eq_add_one, hsucc]

theorem quarters_pos {α : Type} [Scalar α] (delta : α) : 0 < quarters delta :=
  Nat.lt_of_lt_of_le Nat.one_pos (Nat.le_max_left 1 _)

theorem Span.step_pos_iff (s : Span ℝ) : 0 < s.step ↔ 0 < s.delta :=
  div_pos_iff_of_pos_right (Nat.cast_pos.2 (quarters_pos s.delta))

/-- The curve on the unit circle turns towards growing angles at both of its ends, however far it
goes and whichever way. So it follows the angle it spans if and only if this is positive. Without a
sweep an arc goes towards falling angles, and none of its curves follows it, neither on the circle
nor on the ellipse. -/
theorem follows_iff_sweep (start : ℝ) {delta : ℝ} (hdelta : delta ≠ 0) :
    (unitArc start delta).Follows (onCircle start) (Scalar.abs delta) ∧
      ((unitArc start delta).Follows (onCircle start) delta ↔ 0 < delta) ∧
      ∀ r : Request ℝ, r.radius.width ≠ 0 → r.radius.height ≠ 0 → r.start ≠ r.stop →
        ∃ s, span? r = some s ∧ s.delta ≠ 0 ∧ (s.delta < 0 ↔ r.sweep = false) ∧
          commands r = (List.range (quarters s.delta)).map (fun k =>
            s.ellipse.trace (unitArc (s.start + ofCount k * s.step) s.step)) ∧
          ∀ t,
            ((unitArc t s.step).Follows (onCircle t) s.step ↔ r.sweep = true) ∧
              (((unitArc t s.step).map s.ellipse.seen).Follows (s.ellipse.seen (onCircle t)) s.step
                ↔ r.sweep = true) := by
  refine ⟨?_, follows_unitArc_iff start delta delta, ?_⟩
  · rw [follows_unitArc_iff, abs_eq]
    exact abs_pos.2 hdelta
  · intro r hw hh hne
    obtain ⟨s, hs, hproper, hne, hsweep⟩ := exists_span r hw hh hne
    have hstep : 0 < s.step ↔ r.sweep = true := s.step_pos_iff.trans hsweep
    refine ⟨s, hs, hne, ?_, ?_, ?_⟩
    · rw [← Bool.not_eq_true, ← hsweep, not_lt]
      exact ⟨le_of_lt, fun h => lt_of_le_of_ne h hne⟩
    · rw [commands, hs]
      simp only [curves_eq, List.map_map]
      rfl
    · intro t
      rw [follows_unitArc_iff, hproper.follows_seen_iff]
      exact ⟨hstep, hstep⟩

/-- A quarter of the unit circle, clockwise. -/
noncomputable def quarterRequest : Request ℝ := ⟨⟨1, 0⟩, ⟨0, -1⟩, ⟨1, 1⟩, 0, false, false⟩

theorem follows_iff_sweep_quarter :
    (-1 : ℝ) ≠ 0 ∧ ¬ (unitArc (0 : ℝ) (-1)).Follows (onCircle 0) (-1) ∧
      ∃ s, span? quarterRequest = some s ∧ s.delta < 0 ∧
        ¬ (unitArc s.start s.step).Follows (onCircle s.start) s.step := by
  have hdelta : (-1 : ℝ) ≠ 0 := by norm_num
  have hpoints : quarterRequest.start ≠ quarterRequest.stop := by simp [quarterRequest]
  obtain ⟨-, hfollows, harcs⟩ := follows_iff_sweep 0 hdelta
  obtain ⟨s, hs, -, hsign, -, hpieces⟩ := harcs quarterRequest one_ne_zero one_ne_zero hpoints
  refine ⟨hdelta, ?_, s, hs, hsign.2 rfl, ?_⟩
  · rw [hfollows]
    norm_num
  · rw [(hpieces s.start).1]
    exact Bool.false_ne_true

end IconCode.Arc

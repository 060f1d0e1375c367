import IconCode.Path.Command

/-!
# Elliptical arcs

An arc is given by its end points, the radii and the rotation of its ellipse, and which of the four
arcs between the points is meant. It is drawn by one cubic curve for every quarter turn or part of
it. The centre and the angles follow from mapping the ellipse to the unit circle.
-/

namespace IconCode.Arc

open Scalar

variable {α : Type} [Scalar α]

/-- The distance of the control points from the ends of a quarter of the unit circle. -/
def kappa : α := 0.551915024494

/-! ## The unit circle -/

/-- A cubic curve without its starting point. -/
structure Curve (α : Type) where
  control₁ : Point α
  control₂ : Point α
  target : Point α

/-- The curve on the unit circle from the angle `start` on by `delta`. -/
def unitArc (start delta : α) : Curve α :=
  let p : Point α := ⟨cos start, sin start⟩
  let q : Point α := ⟨cos (start + delta), sin (start + delta)⟩
  { control₁ := ⟨p.x - p.y * kappa, p.y + p.x * kappa⟩
    control₂ := ⟨q.x + q.y * kappa, q.y - q.x * kappa⟩
    target := q }

/-- The angle from the direction of `u` to that of `v`, negative clockwise. -/
def angle (u v : Point α) : α :=
  let sign : α := if below (u.x * v.y - u.y * v.x) 0.0 then -1.0 else 1.0
  let magnitude := sqrt (u.x * u.x + u.y * u.y) * sqrt (v.x * v.x + v.y * v.y)
  let dot := u.x * v.x + u.y * v.y
  sign * acos (atMost 1.0 (atLeast (-1.0) (dot / magnitude)))

/-! ## The ellipse -/

/-- Where the unit circle is mapped to. -/
structure Ellipse (α : Type) where
  center : Point α
  radius : Size α
  sine : α
  cosine : α

namespace Ellipse

def map (e : Ellipse α) (p : Point α) : Point α :=
  let x := p.x * e.radius.width
  let y := p.y * e.radius.height
  ⟨e.cosine * x - e.sine * y + e.center.x, e.sine * x + e.cosine * y + e.center.y⟩

/-- The curve on the unit circle, drawn on the ellipse. -/
def trace (e : Ellipse α) (c : Curve α) : Command α :=
  .cubic (e.map c.control₁) (e.map c.control₂) (e.map c.target)

end Ellipse

/-- The curves from an angle on, each by `delta`. -/
def curves (delta : α) : Nat → α → List (Curve α)
  | 0, _ => []
  | n + 1, start => unitArc start delta :: curves delta n (start + delta)

/-! ## Arcs between points -/

/-- An arc as path data describes it. -/
structure Request (α : Type) where
  start : Point α
  stop : Point α
  radius : Size α
  /-- In degrees. -/
  rotation : α
  large : Bool
  sweep : Bool

/-- An ellipse and the part of it to be drawn. -/
structure Span (α : Type) where
  ellipse : Ellipse α
  start : α
  delta : α

/-- The angle to travel: with a sweep it is not negative, without one not positive. -/
def directed (sweep : Bool) (delta : α) : α :=
  let delta := if !sweep && below 0.0 delta then delta - tau else delta
  if sweep && below delta 0.0 then delta + tau else delta

/-- The ellipse through both points and the angles between them. There is none if a radius is zero
or the points coincide. Radii that are too small are scaled up until the ellipse reaches. -/
def span? (r : Request α) : Option (Span α) :=
  if isZero r.radius.width || isZero r.radius.height then none
  else
    let phi := r.rotation * tau / 360.0
    let sine := sin phi
    let cosine := cos phi
    let dx := (r.start.x - r.stop.x) / 2.0
    let dy := (r.start.y - r.stop.y) / 2.0
    let px := cosine * dx + sine * dy
    let py := -sine * dx + cosine * dy
    if isZero px && isZero py then none
    else
      let rx := abs r.radius.width
      let ry := abs r.radius.height
      let lambda := square px / square rx + square py / square ry
      let large := below 1.0 lambda
      let rx := if large then rx * sqrt lambda else rx
      let ry := if large then ry * sqrt lambda else ry
      let reach := square rx * square py + square ry * square px
      let radicand :=
        atLeast 0.0 (square rx * square ry - square rx * square py - square ry * square px) / reach
      let root := sqrt radicand * (if r.large == r.sweep then -1.0 else 1.0)
      let cx := root * rx / ry * py
      let cy := root * -ry / rx * px
      let center : Point α :=
        ⟨cosine * cx - sine * cy + (r.start.x + r.stop.x) / 2.0,
          sine * cx + cosine * cy + (r.start.y + r.stop.y) / 2.0⟩
      let u : Point α := ⟨(px - cx) / rx, (py - cy) / ry⟩
      let v : Point α := ⟨(-px - cx) / rx, (-py - cy) / ry⟩
      some
        { ellipse := ⟨center, ⟨rx, ry⟩, sine, cosine⟩
          start := angle ⟨1.0, 0.0⟩ u
          delta := directed r.sweep (angle u v) }

/-- How many quarter turns cover an angle, at least one. -/
def quarters (delta : α) : Nat := max 1 (ceiling (abs delta / (pi / 2.0)))

/-- The cubic curves of an arc. -/
def commands (r : Request α) : List (Command α) :=
  match span? r with
  | none => []
  | some s =>
    let n := quarters s.delta
    (curves (s.delta / ofCount n) n s.start).map s.ellipse.trace

end IconCode.Arc

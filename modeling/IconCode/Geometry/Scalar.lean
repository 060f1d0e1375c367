import IconCode.Decimal.Exact

/-!
# Scalars

The arithmetic that curves are built with. Drawings are computed with doubles; the laws of the
constructions hold of other numbers as well.
-/

namespace IconCode

/-- Numbers that coordinates are made of. -/
class Scalar (α : Type) extends Add α, Sub α, Mul α, Div α, Neg α, OfScientific α where
  /-- Whether the first number is below the second. -/
  below : α → α → Bool
  /-- Whether the numbers are equal; a zero has no sign here. -/
  equal : α → α → Bool
  sqrt : α → α
  sin : α → α
  cos : α → α
  acos : α → α
  pi : α
  /-- The number of a count. -/
  ofCount : Nat → α
  /-- The least count that is not below a number. -/
  ceiling : α → Nat

namespace Scalar

variable {α : Type} [Scalar α]

def isZero (x : α) : Bool := equal x 0.0

/-- The absolute value. -/
def abs (x : α) : α := if below x 0.0 then -x else x

/-- A number above a bound, else the bound, also for what cannot be compared with it. -/
def atLeast (bound x : α) : α := if below bound x then x else bound

/-- A number below a bound, else the bound, also for what cannot be compared with it. -/
def atMost (bound x : α) : α := if below x bound then x else bound

def square (x : α) : α := x * x

/-- A full turn. -/
def tau : α := 2.0 * pi

end Scalar

/-- Doubles. What is no number has no ceiling and counts as nought. -/
instance : Scalar Float where
  below x y := x < y
  equal x y := x == y
  sqrt := Float.sqrt
  sin := Float.sin
  cos := Float.cos
  acos := Float.acos
  pi := 3.14159265358979323846
  ofCount := Float.ofNat
  ceiling x := ((Decimal.ceiling? x).getD 0).toNat

end IconCode

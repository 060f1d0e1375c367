import IconCode.Decimal.Exact
import IconCode.Decimal.Digits

/-!
# Powers of ten beside a double

The decimal exponent of a positive double and its quotient by a power of ten, both in whole
numbers.
-/

namespace IconCode.Decimal

/-- A quotient of whole numbers. -/
structure Quotient where
  num : Nat
  den : Nat

/-- `num / den` in units of `10 ^ -places`. -/
def Quotient.atPlaces (q : Quotient) (places : Int) : Quotient :=
  if 0 ≤ places then ⟨q.num * Nat.pow 10 places.toNat, q.den⟩
  else ⟨q.num, q.den * Nat.pow 10 (-places).toNat⟩

/-- The absolute value as a quotient. -/
def Exact.quotient (x : Exact) : Quotient := ⟨x.magnitude, stepsPerUnit⟩

/-- The exponent `k` with `10 ^ (k - 1) ≤ v < 10 ^ k` for a positive `v`. The smallest positive
double has 324 places before its first digit, so at 340 places every one has a whole part. -/
def Exact.pointBefore (x : Exact) : Int :=
  let q := x.quotient.atPlaces 340
  ((digits (q.num / q.den)).length : Int) - 340

end IconCode.Decimal

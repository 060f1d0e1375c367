import IconCode.Decimal.Exact
import IconCode.Decimal.Rounding
import IconCode.Decimal.Digits

/-!
# Hundredths

Numbers in generated code have two decimal places. They are held as whole numbers of hundredths,
so two numbers are equal exactly if they are written alike.
-/

namespace IconCode.Decimal

/-- A whole number of hundredths. -/
structure Hundredths where
  count : Int
deriving DecidableEq, Repr

namespace Hundredths

/-- The nearest number of hundredths, of two the even one; zero for what is not finite. -/
def ofFloat (x : Float) : Hundredths :=
  match Exact.ofFloat? x with
  | none => ⟨0⟩
  | some v =>
    let n := roundDiv (v.magnitude * 100) stepsPerUnit
    ⟨if v.negative then -(n : Int) else n⟩

def isNegative (h : Hundredths) : Bool := h.count < 0

/-- The digits of the absolute value, with two after the point. -/
def magnitude (h : Hundredths) : List Char := placed 2 h.count.natAbs

/-- The whole text. -/
def text (h : Hundredths) : List Char := signed h.isNegative h.magnitude

/-- The number that a sign and digits write, two of them after the point. -/
def ofText (negative : Bool) (s : List Char) : Hundredths :=
  ⟨if negative then -(unitsOf s : Int) else unitsOf s⟩

end Hundredths

end IconCode.Decimal

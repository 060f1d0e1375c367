/-!
# The exact value of a double

A finite double is a whole number of steps of `2^-1074`, the smallest positive double. Comparing,
rounding and printing work on that number of steps, so they are exact.
-/

namespace IconCode.Decimal

/-- How many of the smallest steps make one. -/
def stepsPerUnit : Nat := 1 <<< 1074

/-- A finite double: its sign and the significand that its exponent shifts. -/
structure Exact where
  negative : Bool
  significand : Nat
  shift : Nat
deriving DecidableEq, Repr

namespace Exact

/-- The absolute value in steps. -/
def magnitude (x : Exact) : Nat := x.significand <<< x.shift

/-- The value in steps. -/
def steps (x : Exact) : Int := if x.negative then -(x.magnitude : Int) else x.magnitude

/-- The fields of a bit pattern, unless its exponent is the one of the infinities and of the
values that are no numbers. -/
def ofBits? (bits : Nat) : Option Exact :=
  let negative := bits.testBit 63
  let exponent := (bits >>> 52) % 2048
  let fraction := bits % (1 <<< 52)
  if exponent = 2047 then none
  else if exponent = 0 then some ⟨negative, fraction, 0⟩
  else some ⟨negative, (1 <<< 52) + fraction, exponent - 1⟩

/-- The exact value of a finite double. -/
def ofFloat? (x : Float) : Option Exact := ofBits? x.toBits.toNat

end Exact

/-! ## Whole numbers above a value -/

/-- The least whole number not below a double; none of the infinities and what is no number. -/
def ceiling? (x : Float) : Option Int :=
  (Exact.ofFloat? x).map fun v => -((-v.steps) / stepsPerUnit)

/-- A count of pixels: the ceiling, held between 0 and the largest word of 32 bits. What is no
number counts none. -/
def wholePixels (x : Float) : Nat :=
  match ceiling? x with
  | some n => min n.toNat (UInt32.size - 1)
  | none => if 0.0 < x then UInt32.size - 1 else 0

end IconCode.Decimal

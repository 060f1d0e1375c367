import IconCode.Decimal.Magnitude

/-!
# The shortest text of a double

A double is written with the fewest digits that no other double is nearest to; of the texts with
that many digits the nearest is taken, and of two equally near the larger. Between `10^-4` and
`10^16` the text has a point and at least one digit after it, elsewhere an exponent.
-/

namespace IconCode.Decimal

/-! ## Digits -/

/-- The decimal digits of a positive value `0.d₁d₂… · 10 ^ point`. -/
structure Expansion where
  digits : List Char
  point : Int

namespace Shortest

/-- Whether `n` units of `10 ^ -places` lie among the reals that round to the double. The bounds
are half a step away, or a quarter where the doubles below are twice as close; they belong to the
range if the significand is even. -/
def roundsTo (x : Exact) (places : Int) (n : Nat) : Bool :=
  let below := if x.significand = 1 <<< 52 ∧ 0 < x.shift then 1 else 2
  let low : Quotient := ⟨4 * x.magnitude - (below <<< x.shift), 4 * stepsPerUnit⟩
  let high : Quotient := ⟨4 * x.magnitude + (2 <<< x.shift), 4 * stepsPerUnit⟩
  let low := low.atPlaces places
  let high := high.atPlaces places
  if x.significand % 2 = 0 then low.num ≤ n * low.den && n * high.den ≤ high.num
  else low.num < n * low.den && n * high.den < high.num

/-- The nearer of the two neighbours on the grid of `10 ^ -places` that round to the double. -/
def onGrid? (x : Exact) (places : Int) : Option Nat :=
  let q := x.quotient.atPlaces places
  let n := q.num / q.den
  match roundsTo x places n, roundsTo x places (n + 1) with
  | false, false => none
  | true, false => some n
  | false, true => some (n + 1)
  | true, true => if 2 * (q.num % q.den) < q.den then some n else some (n + 1)

/-- The first grid with a hit, trying `left` of them from `count` digits on. Seventeen digits tell
every two doubles apart. -/
def search (x : Exact) (point : Int) : Nat → Nat → Expansion
  | 0, _ => ⟨[], point⟩
  | left + 1, count =>
    match onGrid? x (count - point) with
    | some n =>
      let ds := digits n
      ⟨(ds.reverse.dropWhile (· = '0')).reverse, point + ds.length - count⟩
    | none => search x point left (count + 1)

/-- The digits of a positive double. -/
def expansion (x : Exact) : Expansion := search x x.pointBefore 17 1

/-! ## Text -/

/-- A point within the digits, before zeros or after them, and at least one digit on each side. -/
def positional (e : Expansion) : List Char :=
  if e.point ≤ 0 then ['0', '.'] ++ List.replicate (-e.point).toNat '0' ++ e.digits
  else
    let whole := e.digits.take e.point.toNat
    let fraction := e.digits.drop e.point.toNat
    whole ++ List.replicate (e.point.toNat - whole.length) '0' ++
      '.' :: (if fraction.isEmpty then ['0'] else fraction)

/-- One digit, the others after a point if there are any, and the exponent of ten. -/
def scientific (e : Expansion) : List Char :=
  let mantissa :=
    match e.digits with
    | d :: e :: rest => d :: '.' :: e :: rest
    | ds => ds
  mantissa ++ 'e' :: integer (e.point - 1)

def written (x : Float) : List Char :=
  match Exact.ofFloat? x with
  | none => if x.isNaN then ['N', 'a', 'N'] else signed (x < 0.0) ['i', 'n', 'f']
  | some v =>
    signed v.negative <|
      if v.significand = 0 then ['0', '.', '0']
      else
        let e := expansion v
        if -4 < e.point && e.point ≤ 16 then positional e else scientific e

end Shortest

/-- The shortest text of a double. -/
def shortest (x : Float) : String := String.ofList (Shortest.written x)

end IconCode.Decimal

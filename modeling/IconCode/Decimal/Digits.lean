/-!
# Digits and the decimal point
-/

namespace IconCode.Decimal

/-- The decimal digits of a number, without superfluous zeros. -/
def digits (n : Nat) : List Char := Nat.toDigits 10 n

/-- The digits with zeros before them up to a width. -/
def padded (width n : Nat) : List Char :=
  List.replicate (width - (digits n).length) '0' ++ digits n

/-- `n` units of the last of `places` decimal places. -/
def placed (places n : Nat) : List Char :=
  digits (n / Nat.pow 10 places) ++ '.' :: padded places (n % Nat.pow 10 places)

/-- The number that the digits of a text write, whatever else stands among them. -/
def unitsOf (s : List Char) : Nat := Nat.ofDigitChars 10 (s.filter Char.isDigit) 0

/-- A sign where there is one. -/
def signed (negative : Bool) (s : List Char) : List Char := if negative then '-' :: s else s

def integer (n : Int) : List Char := signed (n < 0) (digits n.natAbs)

end IconCode.Decimal

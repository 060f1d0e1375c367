import IconCode.Error
import IconCode.Number.Literal
import IconCode.Paint.Color

/-!
# Written colours

A colour is a hash sign with three or six hexadecimal digits, three bytes in the parentheses of
`rgb( )`, or a name. How the text begins decides which of the three it has to be.
-/

namespace IconCode.Color

open Text

/-! ## Hexadecimal digits -/

def hexDigit? (c : Char) : Option Nat :=
  if c.isDigit then some (c.toNat - '0'.toNat)
  else if 'a' ≤ c ∧ c ≤ 'f' then some (c.toNat - 'a'.toNat + 10)
  else if 'A' ≤ c ∧ c ≤ 'F' then some (c.toNat - 'A'.toNat + 10)
  else none

/-- The values of a text of hexadecimal digits. -/
def hexDigits? : List Char → Option (List Nat)
  | [] => some []
  | c :: s =>
    match hexDigit? c, hexDigits? s with
    | some d, some ds => some (d :: ds)
    | _, _ => none

/-- Three digits are channels in fifteenths, six are three bytes. -/
def ofHex? (s : List Char) : Option Color :=
  match hexDigits? s with
  | some [r, g, b] => some (ofChannels 15 r g b)
  | some [r, r', g, g', b, b'] => some (ofBytes (16 * r + r') (16 * g + g') (16 * b + b'))
  | _ => none

/-! ## Components -/

/-- A space or a tab. -/
def isGap (c : Char) : Bool := c == ' ' || c == '\t'

/-- A byte in decimal digits with any number of zeros before it, and gaps around it. -/
def takeByte? (s : List Char) : Option (Nat × List Char) :=
  let digits := Number.Literal.takeDigits (s.dropWhile isGap)
  let n := Number.Literal.natural digits.1
  if digits.1.isEmpty || 255 < n then none else some (n, digits.2.dropWhile isGap)

/-- A character that has to be the next one. -/
def expect? (c : Char) : List Char → Option (List Char)
  | d :: s => if d = c then some s else none
  | [] => none

/-- The text after the function's name: three bytes in parentheses. -/
def ofComponents? (s : List Char) : Option Color := do
  let s ← expect? '(' (s.dropWhile isGap)
  let (r, s) ← takeByte? s
  let s ← expect? ',' s
  let (g, s) ← takeByte? s
  let s ← expect? ',' s
  let (b, s) ← takeByte? s
  let s ← expect? ')' s
  if s.isEmpty then some (ofBytes r g b) else none

/-! ## Colours -/

/-- The colour of a text without blanks around it. -/
def ofTrimmed? : List Char → Option Color
  | '#' :: s => ofHex? s
  | 'r' :: 'g' :: 'b' :: s => ofComponents? s
  | s => named? s

/-- A text as a colour, blanks around it aside. -/
def parse (s : List Char) : Except ReadError Color :=
  match ofTrimmed? (trim s) with
  | some c => .ok c
  | none => .error (.invalidColor (String.ofList s))

end IconCode.Color

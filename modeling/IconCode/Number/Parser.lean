import IconCode.Error
import IconCode.Number.Literal
import IconCode.Text.Blank

/-!
# Numbers, lengths and lists of numbers

* `number`: a whole text as one literal.
* `length`: the same with an optional unit `px`.
* `numbers`: literals with commas and blanks between them, or nothing where the next one begins
  by itself.
-/

namespace IconCode.Number

open Text

/-- The value of a literal if it is finite. -/
def Literal.finite? (l : Literal) : Option Float := if l.value.isFinite then some l.value else none

/-- The value of a text that is one literal, blanks around it aside. -/
def number? (s : List Char) : Option Float :=
  match Literal.scan (trim s) with
  | some (l, []) => l.finite?
  | _ => none

/-- A text as a number. -/
def number (s : List Char) : Except ReadError Float :=
  match number? s with
  | some x => .ok x
  | none => .error (.invalidNumber (String.ofList s))

/-- The text before a final `px`, or the whole text. -/
def withoutUnit (s : List Char) : List Char :=
  match s.reverse with
  | 'x' :: 'p' :: r => r.reverse
  | _ => s

/-- A text as a length in pixels. -/
def length (s : List Char) : Except ReadError Float :=
  match number? (withoutUnit (trim s)) with
  | some x => .ok x
  | none => .error (.invalidNumber (String.ofList s))

/-! ## Lists -/

/-- A comma or a blank. -/
def isSeparator (c : Char) : Bool := c == ',' || isBlank c

theorem length_dropWhile_le (p : Char → Bool) (s : List Char) :
    (s.dropWhile p).length ≤ s.length := by
  have h := congrArg List.length (List.takeWhile_append_dropWhile (p := p) (l := s))
  simp only [List.length_append] at h
  omega

/-- The number that the text begins with, and what is left. -/
def take (s : List Char) : Except ReadError (Float × List Char) :=
  match Literal.scan s with
  | none => .error (.invalidNumber (String.ofList (s.takeWhile (!isSeparator ·))))
  | some (l, rest) =>
    match l.finite? with
    | none => .error (.invalidNumber (String.ofList l.text))
    | some x => .ok (x, rest)

theorem length_lt_of_take {s : List Char} {x : Float} {rest : List Char}
    (h : take s = .ok (x, rest)) : rest.length < s.length := by
  unfold take at h
  split at h
  · cases h
  · rename_i l rest' hl
    split at h
    · cases h
    · cases h
      exact Literal.length_lt_of_scan hl

/-- The numbers of a text, one after the other. -/
def numbers (s : List Char) : Except ReadError (List Float) :=
  if (s.dropWhile isSeparator).isEmpty then .ok []
  else
    match h : take (s.dropWhile isSeparator) with
    | .error e => .error e
    | .ok (x, rest) =>
      have _shorter := length_lt_of_take h
      match numbers rest with
      | .error e => .error e
      | .ok xs => .ok (x :: xs)
termination_by s.length
decreasing_by
  have := length_dropWhile_le isSeparator s
  omega

end IconCode.Number

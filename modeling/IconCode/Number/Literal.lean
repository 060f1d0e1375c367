/-!
# Number literals

A literal is an optional sign, digits with an optional point among or before them, and an optional
exponent. A literal is read as far as it goes: a second point or a sign begins the next number, and
an `e` without the digits of an exponent is left over.

* `text_append_of_scan`: what is read and what is left make up the text.
-/

namespace IconCode.Number

/-- The part of a literal after its `e`. -/
structure Exponent where
  mark : Char
  sign : Option Char
  digits : List Char
deriving DecidableEq, Repr

/-- A literal in its parts. The point is written if there is a fraction, even an empty one. -/
structure Literal where
  sign : Option Char
  whole : List Char
  fraction : Option (List Char)
  exponent : Option Exponent
deriving DecidableEq, Repr

namespace Literal

/-! ## Text -/

def exponentText : Option Exponent → List Char
  | none => []
  | some e => e.mark :: (e.sign.toList ++ e.digits)

def fractionText : Option (List Char) → List Char
  | none => []
  | some ds => '.' :: ds

/-- The literal as it was written. -/
def text (l : Literal) : List Char :=
  l.sign.toList ++ (l.whole ++ (fractionText l.fraction ++ exponentText l.exponent))

/-! ## Reading -/

def takeDigits (s : List Char) : List Char × List Char :=
  (s.takeWhile Char.isDigit, s.dropWhile Char.isDigit)

/-- A sign, if the text begins with one. -/
def takeSign : List Char → Option Char × List Char
  | '+' :: s => (some '+', s)
  | '-' :: s => (some '-', s)
  | s => (none, s)

/-- A point and the digits after it, if the text begins with a point. -/
def takeFraction : List Char → Option (List Char) × List Char
  | '.' :: s => (some (takeDigits s).1, (takeDigits s).2)
  | s => (none, s)

/-- An exponent, if the text begins with a complete one. -/
def takeExponent : List Char → Option Exponent × List Char
  | [] => (none, [])
  | c :: s =>
    if c = 'e' ∨ c = 'E' then
      let sign := takeSign s
      let digits := takeDigits sign.2
      if digits.1.isEmpty then (none, c :: s) else (some ⟨c, sign.1, digits.1⟩, digits.2)
    else (none, c :: s)

/-- The longest literal that the text begins with, and what is left. -/
def scan (s : List Char) : Option (Literal × List Char) :=
  let sign := takeSign s
  let whole := takeDigits sign.2
  let fraction := takeFraction whole.2
  let exponent := takeExponent fraction.2
  if whole.1.isEmpty && (fraction.1.getD []).isEmpty then none
  else some (⟨sign.1, whole.1, fraction.1, exponent.1⟩, exponent.2)

/-! ## What reading keeps -/

theorem takeDigits_append (s : List Char) : (takeDigits s).1 ++ (takeDigits s).2 = s :=
  List.takeWhile_append_dropWhile

theorem takeSign_append (s : List Char) : (takeSign s).1.toList ++ (takeSign s).2 = s := by
  unfold takeSign
  split <;> rfl

theorem takeFraction_append (s : List Char) :
    fractionText (takeFraction s).1 ++ (takeFraction s).2 = s := by
  unfold takeFraction
  split
  · simp [fractionText, takeDigits_append]
  · rfl

theorem takeExponent_append (s : List Char) :
    exponentText (takeExponent s).1 ++ (takeExponent s).2 = s := by
  cases s with
  | nil => rfl
  | cons c s =>
    simp only [takeExponent]
    split
    · split
      · rfl
      · simp only [exponentText, List.cons_append, List.append_assoc, takeDigits_append,
          takeSign_append]
    · rfl

theorem text_append_of_scan {s rest : List Char} {l : Literal} (h : scan s = some (l, rest)) :
    l.text ++ rest = s := by
  simp only [scan] at h
  split at h
  · cases h
  · simp only [Option.some.injEq, Prod.mk.injEq] at h
    obtain ⟨rfl, rfl⟩ := h
    simp only [text, List.append_assoc, takeExponent_append, takeFraction_append,
      takeDigits_append, takeSign_append]

theorem length_lt_of_scan {s rest : List Char} {l : Literal} (h : scan s = some (l, rest)) :
    rest.length < s.length := by
  have ha := congrArg List.length (text_append_of_scan h)
  have hp : 0 < l.text.length := by
    simp only [scan] at h
    split at h
    · cases h
    · rename_i hn
      simp only [Option.some.injEq, Prod.mk.injEq] at h
      obtain ⟨rfl, rfl⟩ := h
      simp only [text, List.length_append]
      generalize (takeDigits (takeSign s).2).1 = whole at hn ⊢
      generalize (takeFraction (takeDigits (takeSign s).2).2).1 = fraction at hn ⊢
      cases whole with
      | cons _ _ => simp only [List.length_cons]; omega
      | nil =>
        cases fraction with
        | none => simp at hn
        | some ds => simp only [fractionText, List.length_cons]; omega
  simp only [List.length_append] at ha
  omega

/-! ## Value -/

/-- The number that digits write. -/
def natural (ds : List Char) : Nat := ds.foldl (fun n c => 10 * n + (c.toNat - '0'.toNat)) 0

def exponentValue : Option Exponent → Int
  | none => 0
  | some e => if e.sign = some '-' then -(natural e.digits : Int) else natural e.digits

/-- The double nearest to `m · 10 ^ e`. A number of more than 310 places before the point is above
every double and one that begins after the 330th place behind it rounds to zero, so that powers
stay small. -/
def nearestDouble (m : Nat) (e : Int) : Float :=
  let places := ((Nat.toDigits 10 m).length : Int) + e
  if m = 0 ∨ places < -330 then 0.0
  else if 310 < places then 1.0 / 0.0
  else if 0 ≤ e then Float.ofScientific m false e.toNat
  else Float.ofScientific m true (-e).toNat

/-- The double nearest to the literal, infinite if the literal is beyond all of them. -/
def value (l : Literal) : Float :=
  let fraction := l.fraction.getD []
  let x := nearestDouble (natural (l.whole ++ fraction))
    (exponentValue l.exponent - fraction.length)
  if l.sign = some '-' then -x else x

end Literal

end IconCode.Number

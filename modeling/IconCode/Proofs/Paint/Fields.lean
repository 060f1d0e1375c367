import IconCode.Paint.Property
import IconCode.Proofs.Outcome

/-!
# Styles by their properties

A style is what it has for each property. A declaration sets one property, to what its text says
without the blanks around it, and merging takes for each property the upper value if there is one.

* `Property.ofName?_eq_some_iff`: a property has one name.
* `Style.ext_value?`: styles with the same values are equal.
* `Style.value?_merge`, `Style.value?_only`: the values of what styles are made of.
* `Property.declare_eq`: what a declaration sets.
* `Property.read_eq`: the value of a text, or an error that repeats the text.
-/

namespace IconCode

open Text (trim)

/-! ## Names -/

namespace Property

theorem ofName?_name (p : Property) : ofName? p.name = some p := by
  cases p <;> decide

theorem ofName?_eq_some_iff {name : String} {p : Property} :
    ofName? name = some p ↔ name = p.name := by
  refine ⟨?_, ?_⟩
  · intro h
    have hname := List.find?_some h
    exact (beq_iff_eq.1 hname).symm
  · rintro rfl
    exact ofName?_name p

theorem ofName?_eq_none_iff {name : String} : ofName? name = none ↔ ∀ p : Property, name ≠ p.name := by
  simp only [Option.eq_none_iff_forall_ne_some, ne_eq, ofName?_eq_some_iff]

theorem name_injective {p q : Property} (h : p.name = q.name) : p = q := by
  rw [← Option.some_inj, ← ofName?_name, ← ofName?_name, h]

theorem name_ne_style (p : Property) : p.name ≠ "style" := by
  cases p <;> decide

end Property

/-! ## Values -/

theorem Color.parse_eq (s : List Char) :
    parse s = (ofTrimmed? (trim s)).elim (.error (.invalidColor (String.ofList s))) .ok := by
  rw [parse]
  cases ofTrimmed? (trim s) <;> rfl

theorem Number.number_eq (s : List Char) :
    number s = (number? (trim s)).elim (.error (.invalidNumber (String.ofList s))) .ok := by
  have htrim : number? (trim s) = number? s := by rw [number?, number?, Text.trim_trim]
  rw [number, htrim]
  cases number? s <;> rfl

theorem Number.length_eq (s : List Char) :
    length s =
      (number? (withoutUnit (trim s))).elim (.error (.invalidNumber (String.ofList s))) .ok := by
  rw [length]
  cases number? (withoutUnit (trim s)) <;> rfl

theorem FillRule.ofText_trim (s : List Char) : ofText (trim s) = ofText s := by
  rw [ofText, ofText, Text.trim_trim]

namespace Property

/-- What the values of a property are. -/
def Value : Property → Type
  | .fill | .stroke => Color
  | .fillRule => FillRule
  | .fillOpacity | .strokeWidth | .strokeOpacity | .opacity => Float

instance : (p : Property) → DecidableEq p.Value
  | .fill | .stroke => inferInstanceAs (DecidableEq Color)
  | .fillRule => inferInstanceAs (DecidableEq FillRule)
  | .fillOpacity | .strokeWidth | .strokeOpacity | .opacity => inferInstanceAs (DecidableEq Float)

/-- A text as a value of a property. -/
def read : (p : Property) → List Char → Except ReadError p.Value
  | .fill, s | .stroke, s => Color.parse s
  | .strokeWidth, s => Number.length s
  | .fillOpacity, s | .strokeOpacity, s | .opacity, s => Number.number s
  | .fillRule, s => .ok (.ofText s)

/-- The value of a text without blanks around it. -/
def ofTrimmed? : (p : Property) → List Char → Option p.Value
  | .fill, s | .stroke, s => Color.ofTrimmed? s
  | .strokeWidth, s => Number.number? (Number.withoutUnit s)
  | .fillOpacity, s | .strokeOpacity, s | .opacity, s => Number.number? s
  | .fillRule, s => some (.ofText s)

/-- The error of a text that is no value of a property. Every text is a fill rule. -/
def malformed : Property → String → ReadError
  | .fill | .stroke => .invalidColor
  | .strokeWidth | .fillOpacity | .strokeOpacity | .opacity | .fillRule => .invalidNumber

theorem read_eq (p : Property) (s : List Char) :
    p.read s =
      (p.ofTrimmed? (trim s)).elim (.error (p.malformed (String.ofList s))) .ok := by
  cases p with
  | fill => exact Color.parse_eq s
  | fillOpacity => exact Number.number_eq s
  | stroke => exact Color.parse_eq s
  | strokeWidth => exact Number.length_eq s
  | strokeOpacity => exact Number.number_eq s
  | opacity => exact Number.number_eq s
  | fillRule => exact congrArg Except.ok (FillRule.ofText_trim s).symm

end Property

/-! ## Styles -/

namespace Style

/-- The value of a property, if it is set. -/
def value? (s : Style) : (p : Property) → Option p.Value
  | .fill => s.fill
  | .fillOpacity => s.fillOpacity
  | .stroke => s.stroke
  | .strokeWidth => s.strokeWidth
  | .strokeOpacity => s.strokeOpacity
  | .opacity => s.opacity
  | .fillRule => s.fillRule

/-- The style with these values. -/
def ofValues (value? : (p : Property) → Option p.Value) : Style where
  fill := value? .fill
  fillOpacity := value? .fillOpacity
  stroke := value? .stroke
  strokeWidth := value? .strokeWidth
  strokeOpacity := value? .strokeOpacity
  opacity := value? .opacity
  fillRule := value? .fillRule

/-- The style with one property set. -/
def only (p : Property) (x : p.Value) : Style :=
  ofValues fun q => if h : p = q then some (h ▸ x) else none

theorem ext_value? {s t : Style} (h : ∀ p, s.value? p = t.value? p) : s = t := by
  cases s
  cases t
  rw [mk.injEq]
  exact ⟨h .fill, h .fillOpacity, h .stroke, h .strokeWidth, h .strokeOpacity, h .opacity,
    h .fillRule⟩

@[simp] theorem value?_ofValues (f : (p : Property) → Option p.Value) (p : Property) :
    (ofValues f).value? p = f p := by
  cases p <;> rfl

@[simp] theorem value?_empty (p : Property) : empty.value? p = none := by
  cases p <;> rfl

@[simp] theorem value?_merge (lower upper : Style) (p : Property) :
    (lower.merge upper).value? p = (upper.value? p).or (lower.value? p) := by
  cases p <;> rfl

@[simp] theorem value?_only (p : Property) (x : p.Value) : (only p x).value? p = some x := by
  simp [only]

theorem value?_only_of_ne {p q : Property} (h : p ≠ q) (x : p.Value) :
    (only p x).value? q = none := by
  simp [only, h]

end Style

/-- A declaration sets its property to the value of the text, and no other property. -/
theorem Property.declare_eq (p : Property) (s : List Char) :
    p.declare s = (p.read s).map (Style.only p) := by
  cases p <;> rfl

end IconCode

import IconCode.Paint.Color

/-!
# Styles

What is declared about the paint of an element. Every property is set or unset by itself.

* `merge_assoc`, `merge_empty`, `empty_merge`: merging is associative and has the empty style as
  its unit.
* `cascade_cascade`: inheriting once more from the same parent changes nothing.
-/

namespace IconCode

/-- Which points a path that crosses itself encloses. -/
inductive FillRule where
  | nonzero
  | evenodd
deriving DecidableEq, Repr

namespace FillRule

/-- The rule of a text: everything but the other rule's name is the first rule. -/
def ofText (s : List Char) : FillRule :=
  if Text.equalsIgnoringCase (Text.trim s) "evenodd".toList then .evenodd else .nonzero

def name : FillRule → String
  | .nonzero => "nonzero"
  | .evenodd => "evenodd"

end FillRule

/-- The declared paint properties. -/
structure Style where
  fill : Option Color := none
  fillOpacity : Option Float := none
  stroke : Option Color := none
  strokeWidth : Option Float := none
  strokeOpacity : Option Float := none
  opacity : Option Float := none
  fillRule : Option FillRule := none
deriving DecidableEq

namespace Style

/-- Nothing declared. -/
def empty : Style := {}

/-- What holds where nothing is declared: a black fill and strokes of width one. -/
def initial : Style := { fill := some .black, strokeWidth := some 1.0 }

/-- What `upper` sets over what `lower` sets. -/
def merge (lower upper : Style) : Style where
  fill := upper.fill.or lower.fill
  fillOpacity := upper.fillOpacity.or lower.fillOpacity
  stroke := upper.stroke.or lower.stroke
  strokeWidth := upper.strokeWidth.or lower.strokeWidth
  strokeOpacity := upper.strokeOpacity.or lower.strokeOpacity
  opacity := upper.opacity.or lower.opacity
  fillRule := upper.fillRule.or lower.fillRule

/-- The style of a child that declares `own` under a parent of style `parent`. -/
def cascade (parent own : Style) : Style := (initial.merge parent).merge own

/-! ## Values in effect -/

def effectiveFillOpacity (s : Style) : Float := s.fillOpacity.getD 1.0

def effectiveStrokeWidth (s : Style) : Float := s.strokeWidth.getD 0.0

def effectiveStrokeOpacity (s : Style) : Float := s.strokeOpacity.getD 1.0

def effectiveOpacity (s : Style) : Float := s.opacity.getD 1.0

def effectiveFillRule (s : Style) : FillRule := s.fillRule.getD .nonzero

/-- The colour that the inside is painted with. -/
def activeFill? (s : Style) : Option Color := s.fill.filter (!·.isClear)

/-- The colour that the outline is painted with: there has to be a width, too. -/
def activeStroke? (s : Style) : Option Color :=
  s.stroke.filter fun c => !c.isClear && 0.0 < s.effectiveStrokeWidth

/-! ## Merging -/

@[simp] theorem merge_empty (s : Style) : s.merge empty = s := by
  cases s; rfl

@[simp] theorem empty_merge (s : Style) : empty.merge s = s := by
  cases s; simp [merge, empty]

theorem merge_assoc (a b c : Style) : (a.merge b).merge c = a.merge (b.merge c) := by
  simp [merge, Option.or_assoc]

theorem merge_self (a : Style) : a.merge a = a := by
  simp [merge]

/-- Merging over a style what already lies over it. -/
theorem merge_merge_self (a b : Style) : a.merge (a.merge b) = a.merge b := by
  rw [← merge_assoc, merge_self]

theorem cascade_cascade (parent own : Style) :
    cascade parent (cascade parent own) = cascade parent own :=
  merge_merge_self _ _

end Style

end IconCode

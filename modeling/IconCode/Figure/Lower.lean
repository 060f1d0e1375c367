import IconCode.Figure.Error
import IconCode.Figure.Outline

/-!
# The figures of a drawing
-/

namespace IconCode

open Decimal (Hundredths)

/-- Whether a channel is in range; what is no number is not. -/
def Color.isUnit (x : Float) : Bool := 0.0 ≤ x && x ≤ 1.0

/-- The rounded colour with its alpha scaled by an opacity and held between 0 and 1. -/
def Tone.ofColor (c : Color) (opacity : Float) : Except DrawError Tone :=
  if [c.r, c.g, c.b, c.a].all Color.isUnit && opacity.isFinite then
    .ok
      { r := .ofFloat c.r
        g := .ofFloat c.g
        b := .ofFloat c.b
        a := .ofFloat (Scalar.atMost 1.0 (Scalar.atLeast 0.0 (c.a * opacity))) }
  else .error (.unsupportedColor c)

namespace Style

/-- The paint of the inside, if there is one. -/
def fillPaint (s : Style) : Except DrawError (Option Fill) :=
  match s.activeFill? with
  | none => .ok none
  | some c =>
    (Tone.ofColor c (s.effectiveFillOpacity * s.effectiveOpacity)).map fun tone =>
      some ⟨s.effectiveFillRule, tone⟩

/-- The paint of the outline, if there is one. -/
def strokePaint (s : Style) : Except DrawError (Option Stroke) :=
  match s.activeStroke? with
  | none => .ok none
  | some c =>
    (Tone.ofColor c (s.effectiveStrokeOpacity * s.effectiveOpacity)).map fun tone =>
      some ⟨.ofFloat s.effectiveStrokeWidth, tone⟩

/-- Whether anything is painted at all. -/
def paints (s : Style) : Bool := s.activeFill?.isSome || s.activeStroke?.isSome

end Style

namespace Figure

/-- The figure of a leaf: without paint and without an outline there is none. -/
def ofLeaf (shape : Shape) (style : Style) : Except DrawError (Option Figure) :=
  if !style.paints then .ok none
  else
    match Outline.ofShape? shape with
    | none => .ok none
    | some outline =>
      match style.fillPaint with
      | .error e => .error e
      | .ok fill =>
        match style.strokePaint with
        | .error e => .error e
        | .ok stroke => .ok (some (.leaf outline fill stroke))

mutual

/-- The figure of an element. A group always has one, be it empty. -/
def ofElement : Element → Except DrawError (Option Figure)
  | .leaf shape style => ofLeaf shape style
  | .group children _ =>
    match ofElements children with
    | .error e => .error e
    | .ok figures => .ok (some (.group figures))

/-- The figures of those elements that have one. -/
def ofElements : List Element → Except DrawError (List Figure)
  | [] => .ok []
  | e :: es =>
    match ofElement e with
    | .error error => .error error
    | .ok figure =>
      match ofElements es with
      | .error error => .error error
      | .ok figures => .ok (figure.toList ++ figures)

end

end Figure

end IconCode

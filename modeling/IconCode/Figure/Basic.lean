import IconCode.Decimal.Hundredths
import IconCode.Drawing.Element

/-!
# Figures

A figure is what is painted of an element, with the numbers as the generated code has them: its
outline, and the paint of its inside and of its outline. Of a group it is the figures of its
children.
-/

namespace IconCode

open Decimal (Hundredths)

/-- What a painted leaf looks like before it is painted. -/
inductive Outline where
  | rectangle (frame : Rect Hundredths)
  | oval (frame : Rect Hundredths)
  | trace (commands : List (Command Hundredths))
deriving DecidableEq

/-- A colour whose alpha is already scaled. -/
structure Tone where
  r : Hundredths
  g : Hundredths
  b : Hundredths
  a : Hundredths
deriving DecidableEq

/-- The paint of the inside. -/
structure Fill where
  rule : FillRule
  tone : Tone
deriving DecidableEq

/-- The paint of the outline. -/
structure Stroke where
  width : Hundredths
  tone : Tone
deriving DecidableEq

inductive Figure where
  | leaf (outline : Outline) (fill : Option Fill) (stroke : Option Stroke)
  | group (children : List Figure)

end IconCode

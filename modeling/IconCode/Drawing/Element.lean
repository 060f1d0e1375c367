import IconCode.Paint.Style
import IconCode.Path.Command

/-!
# Drawings

A drawing is a tree of groups with shapes as its leaves. Every element has the style that it is
painted with, after all inheritance.
-/

namespace IconCode

/-- The geometry of a leaf. -/
inductive Shape where
  | rectangle (frame : Rect Float) (rx ry : Float)
  | ellipse (center : Point Float) (radius : Size Float)
  | line (start stop : Point Float)
  | polygon (points : List (Point Float))
  | polyline (points : List (Point Float))
  | path (commands : List (Command Float))
deriving DecidableEq

/-- A leaf or a group of elements. -/
inductive Element where
  | leaf (shape : Shape) (style : Style)
  | group (children : List Element) (style : Style)

namespace Element

def style : Element → Style
  | .leaf _ style => style
  | .group _ style => style

/-- The element with another style; the children of a group keep theirs. -/
def restyled (e : Element) (style : Style) : Element :=
  match e with
  | .leaf shape _ => .leaf shape style
  | .group children _ => .group children style

/-- Whether the element paints anything itself. -/
def isDrawable : Element → Bool
  | .leaf .. => true
  | .group .. => false

theorem restyled_style (e : Element) : e.restyled e.style = e := by
  cases e <;> rfl

end Element

/-! ## Owners of elements -/

/-- Elements in the order they are painted, under a style that they inherit from. -/
structure Layer where
  children : List Element := []
  style : Style := .empty

namespace Layer

/-- The style of a child that declares `own`. -/
def resolve (l : Layer) (own : Style) : Style := .cascade l.style own

/-- The layer with one more child, as it is. -/
def push (l : Layer) (e : Element) : Layer := { l with children := l.children ++ [e] }

/-- The layer with one more child, whose style is taken for declared. -/
def append (l : Layer) (e : Element) : Layer := l.push (e.restyled (l.resolve e.style))

/-- The layer as an element of another one. -/
def toElement (l : Layer) : Element := .group l.children l.style

end Layer

/-- A whole drawing: its size in pixels, the rectangle of the plane that is mapped to it, its title
and its elements. -/
structure Document extends Layer where
  size : Size Float := .zero
  viewBox : Rect Float := .zero
  title : String := ""

end IconCode

import IconCode.Drawing.Element
import IconCode.Path.Data
import IconCode.Reader.Paint

/-!
# Shapes and their attributes

For each element that draws something: its attributes and the geometry they give. What is not given
is zero or empty.
-/

namespace IconCode.Reader

open Markup (Attribute)

/-- Sets a part of a geometry to a length. -/
def lengthOf {σ : Type} (set : σ → Float → σ) :
    Option (σ → List Char → Except ReadError σ) :=
  some fun state value => (Number.length value).map (set state)

/-! ## Rectangles -/

/-- A frame and the radii of its corners as far as they are given. -/
structure Rounded where
  frame : Rect Float := .zero
  rx : Option Float := none
  ry : Option Float := none

/-- One radius stands for both. A radius is not negative and not beyond half a side. -/
def Rounded.radii (r : Rounded) : Float × Float :=
  let (rx, ry) :=
    match r.rx, r.ry with
    | some rx, some ry => (rx, ry)
    | some rx, none => (rx, rx)
    | none, some ry => (ry, ry)
    | none, none => (0.0, 0.0)
  (Scalar.atMost (r.frame.width / 2.0) (Scalar.atLeast 0.0 rx),
    Scalar.atMost (r.frame.height / 2.0) (Scalar.atLeast 0.0 ry))

def Rounded.vocabulary : Vocabulary Rounded
  | "x" => lengthOf fun r x => { r with frame := { r.frame with x } }
  | "y" => lengthOf fun r y => { r with frame := { r.frame with y } }
  | "width" => lengthOf fun r width => { r with frame := { r.frame with width } }
  | "height" => lengthOf fun r height => { r with frame := { r.frame with height } }
  | "rx" => lengthOf fun r rx => { r with rx := some rx }
  | "ry" => lengthOf fun r ry => { r with ry := some ry }
  | _ => none

def Rounded.shape (r : Rounded) : Shape := .rectangle r.frame r.radii.1 r.radii.2

/-! ## Circles and ellipses -/

structure Oval where
  center : Point Float := .zero
  radius : Size Float := .zero

def Oval.shape (o : Oval) : Shape := .ellipse o.center o.radius

def Oval.circleVocabulary : Vocabulary Oval
  | "cx" => lengthOf fun o x => { o with center := { o.center with x } }
  | "cy" => lengthOf fun o y => { o with center := { o.center with y } }
  | "r" => lengthOf fun o r => { o with radius := ⟨r, r⟩ }
  | _ => none

def Oval.ellipseVocabulary : Vocabulary Oval
  | "cx" => lengthOf fun o x => { o with center := { o.center with x } }
  | "cy" => lengthOf fun o y => { o with center := { o.center with y } }
  | "rx" => lengthOf fun o width => { o with radius := { o.radius with width } }
  | "ry" => lengthOf fun o height => { o with radius := { o.radius with height } }
  | _ => none

/-! ## Lines -/

structure Segment where
  start : Point Float := .zero
  stop : Point Float := .zero

def Segment.shape (s : Segment) : Shape := .line s.start s.stop

def Segment.vocabulary : Vocabulary Segment
  | "x1" => lengthOf fun s x => { s with start := { s.start with x } }
  | "y1" => lengthOf fun s y => { s with start := { s.start with y } }
  | "x2" => lengthOf fun s x => { s with stop := { s.stop with x } }
  | "y2" => lengthOf fun s y => { s with stop := { s.stop with y } }
  | _ => none

/-! ## Points and paths -/

/-- Numbers as coordinates of points, two for each. -/
def pairs? {α : Type} : List α → Option (List (Point α))
  | [] => some []
  | [_] => none
  | x :: y :: rest => (pairs? rest).map (⟨x, y⟩ :: ·)

/-- A list of points; the text is no number if a coordinate is missing. -/
def points (value : List Char) : Except ReadError (List (Point Float)) :=
  match Number.numbers value with
  | .error e => .error e
  | .ok xs =>
    match pairs? xs with
    | some ps => .ok ps
    | none => .error (.invalidNumber (String.ofList value))

def pointsVocabulary : Vocabulary (List (Point Float))
  | "points" => some fun _ value => points value
  | _ => none

def pathVocabulary : Vocabulary (List (Command Float))
  | "d" => some fun _ value => Path.parse value
  | _ => none

/-! ## Elements -/

/-- The elements that draw something. -/
inductive ShapeName where
  | rect
  | circle
  | ellipse
  | line
  | polygon
  | polyline
  | path
deriving DecidableEq, Repr

namespace ShapeName

def text : ShapeName → String
  | .rect => "rect"
  | .circle => "circle"
  | .ellipse => "ellipse"
  | .line => "line"
  | .polygon => "polygon"
  | .polyline => "polyline"
  | .path => "path"

def all : List ShapeName := [.rect, .circle, .ellipse, .line, .polygon, .polyline, .path]

def ofText? (name : String) : Option ShapeName := all.find? (·.text == name)

/-- The shape that the attributes describe, with the style that they declare. -/
def read (name : ShapeName) (attributes : List Attribute) : Outcome Element :=
  match name with
  | .rect => finish Rounded.shape (gatherAll "rect" Rounded.vocabulary {} attributes)
  | .circle => finish Oval.shape (gatherAll "circle" Oval.circleVocabulary {} attributes)
  | .ellipse => finish Oval.shape (gatherAll "ellipse" Oval.ellipseVocabulary {} attributes)
  | .line => finish Segment.shape (gatherAll "line" Segment.vocabulary {} attributes)
  | .polygon => finish .polygon (gatherAll "polygon" pointsVocabulary [] attributes)
  | .polyline => finish .polyline (gatherAll "polyline" pointsVocabulary [] attributes)
  | .path => finish .path (gatherAll "path" pathVocabulary [] attributes)
where
  /-- The element of a gathered geometry and style. -/
  finish {σ : Type} (shape : σ → Shape) (x : Outcome (σ × Style)) : Outcome Element := do
    let (geometry, style) ← x
    pure (.leaf (shape geometry) style)

end ShapeName

/-! ## Groups and documents -/

/-- An element without attributes of its own. -/
def noVocabulary : Vocabulary Unit := fun _ => none

def groupStyle (attributes : List Attribute) : Outcome Style := do
  let (_, style) ← gatherAll "g" noVocabulary () attributes
  pure style

/-- What the root says about its size. -/
structure Canvas where
  width : Option Float := none
  height : Option Float := none
  viewBox : Option (Rect Float) := none

/-- A view box is exactly four numbers. -/
def readViewBox (value : List Char) : Except ReadError (Rect Float) :=
  match Number.numbers value with
  | .error e => .error e
  | .ok [x, y, width, height] => .ok ⟨x, y, width, height⟩
  | .ok _ => .error (.invalidNumber (String.ofList value))

def Canvas.vocabulary : Vocabulary Canvas
  | "width" => lengthOf fun c width => { c with width := some width }
  | "height" => lengthOf fun c height => { c with height := some height }
  | "viewBox" => some fun c value => (readViewBox value).map fun r => { c with viewBox := some r }
  | _ => none

/-- A side that is not given is the view box's, and without a view box zero. -/
def Canvas.size (c : Canvas) : Size Float :=
  ⟨c.width.getD (c.viewBox.elim 0.0 (·.width)), c.height.getD (c.viewBox.elim 0.0 (·.height))⟩

/-- Without a view box the whole size is shown. -/
def Canvas.shown (c : Canvas) : Rect Float := c.viewBox.getD (.ofOriginSize .zero c.size)

/-- The document of the root's attributes, still without children. -/
def rootDocument (attributes : List Attribute) : Outcome Document := do
  let (canvas, style) ← gatherAll "svg" Canvas.vocabulary {} attributes
  pure { size := canvas.size, viewBox := canvas.shown, style }

end IconCode.Reader

import IconCode.Code.Expr
import IconCode.Figure.Basic

/-!
# Drawing code

The statements that paint figures: a block for each, which builds a path and, if there is one, fills
it and draws its outline, in the given tint if there is one. A group is the block of its children.
-/

namespace IconCode

open Code Decimal

/-! ## The drawing library -/

/-- A name of the drawing library. -/
def skia (names : List String) : List String := "tiny_skia" :: names

def pointArguments (p : Point Hundredths) : List Expr := [.number p.x, .number p.y]

namespace Command

/-- The method of a path builder for a command, and its arguments. -/
def builderCall : Command Hundredths → String × List Expr
  | .moveTo p => ("move_to", pointArguments p)
  | .lineTo p => ("line_to", pointArguments p)
  | .quadratic c p => ("quad_to", pointArguments c ++ pointArguments p)
  | .cubic c d p => ("cubic_to", pointArguments c ++ pointArguments d ++ pointArguments p)
  | .close => ("close", [])

def statement (c : Command Hundredths) : Stmt :=
  .run (.method (.name "builder") c.builderCall.1 c.builderCall.2)

end Command

namespace Outline

/-- The frame as a value of the drawing library, which may refuse it. -/
def frameExpr (r : Rect Hundredths) : Expr :=
  .call (skia ["Rect", "from_xywh"]) [.number r.x, .number r.y, .number r.width, .number r.height]

/-- The path of an outline, if the drawing library accepts it. -/
def expr : Outline → Expr
  | .rectangle r => .method (frameExpr r) "map" [.path (skia ["PathBuilder", "from_rect"])]
  | .oval r => .method (frameExpr r) "and_then" [.path (skia ["PathBuilder", "from_oval"])]
  | .trace commands =>
    .block <|
      .bind true "builder" (.call (skia ["PathBuilder", "new"]) []) ::
        commands.map Command.statement ++ [.result (.method (.name "builder") "finish" [])]

end Outline

def Tone.expr (t : Tone) : Expr :=
  .attempt <|
    .call (skia ["Color", "from_rgba"]) [.number t.r, .number t.g, .number t.b, .number t.a]

def FillRule.expr : FillRule → Expr
  | .nonzero => .path (skia ["FillRule", "Winding"])
  | .evenodd => .path (skia ["FillRule", "EvenOdd"])

/-! ## Painting -/

namespace Figure

def newPaint (name : String) : Stmt := .bind true name (.call (skia ["Paint", "default"]) [])

def setColor (paint : String) (color : Expr) : Stmt :=
  .run (.method (.name paint) "set_color" [color])

/-- The width of the outline. -/
def strokeShape (s : Stroke) : Stmt :=
  .bind false "stroke" <|
    .record (skia ["Stroke"]) "width" (.number s.width) (.call (skia ["Stroke", "default"]) [])

/-- What is declared before painting. -/
def declarations (fill : Option Fill) (stroke : Option Stroke) : List Stmt :=
  stroke.toList.map strokeShape ++ fill.toList.map (fun _ => newPaint "fill_paint") ++
    stroke.toList.map fun _ => newPaint "stroke_paint"

/-- Everything in the tint. -/
def tinted (fill : Option Fill) (stroke : Option Stroke) : List Stmt :=
  fill.toList.map (fun _ => setColor "fill_paint" (.name "tint")) ++
    stroke.toList.map fun _ => setColor "stroke_paint" (.name "tint")

/-- Everything in its own colour. -/
def untinted (fill : Option Fill) (stroke : Option Stroke) : List Stmt :=
  fill.toList.map (fun f => setColor "fill_paint" f.tone.expr) ++
    stroke.toList.map fun s => setColor "stroke_paint" s.tone.expr

def paintFill (f : Fill) : Stmt :=
  .run <| .method (.name "pixmap") "fill_path"
    [.borrow "path", .borrow "fill_paint", f.rule.expr, .name "transform", .name "None"]

def paintStroke : Stmt :=
  .run <| .method (.name "pixmap") "stroke_path"
    [.borrow "path", .borrow "stroke_paint", .borrow "stroke", .name "transform", .name "None"]

/-- Paints the inside before the outline. -/
def paint (fill : Option Fill) (stroke : Option Stroke) : List Stmt :=
  declarations fill stroke ++
    [.result (.ifSomeElse "tint" (tinted fill stroke) (untinted fill stroke))] ++
    fill.toList.map paintFill ++ stroke.toList.map fun _ => paintStroke

mutual

/-- The block that paints a figure. -/
def code : Figure → Expr
  | .leaf outline fill stroke =>
    .block [.bind false "path" outline.expr, .result (.ifSome "path" (paint fill stroke))]
  | .group children => .block (statements children)

/-- The blocks of several figures. -/
def statements : List Figure → List Stmt
  | [] => []
  | f :: fs => .result f.code :: statements fs

end

end Figure

end IconCode

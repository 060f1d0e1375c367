import IconCode.Figure.Basic
import IconCode.Path.Arc

/-!
# Outlines of shapes
-/

namespace IconCode

open Decimal (Hundredths)

def Rect.map {α β : Type} (f : α → β) (r : Rect α) : Rect β :=
  ⟨f r.x, f r.y, f r.width, f r.height⟩

namespace Outline

/-- A rectangle with elliptic corners, clockwise from the end of the upper left corner. -/
def rounded (frame : Rect Float) (rx ry : Float) : List (Command Float) :=
  let left := frame.x
  let top := frame.y
  let right := frame.x + frame.width
  let bottom := frame.y + frame.height
  let kx := rx * Arc.kappa
  let ky := ry * Arc.kappa
  [.moveTo ⟨left + rx, top⟩,
    .lineTo ⟨right - rx, top⟩,
    .cubic ⟨right - rx + kx, top⟩ ⟨right, top + ry - ky⟩ ⟨right, top + ry⟩,
    .lineTo ⟨right, bottom - ry⟩,
    .cubic ⟨right, bottom - ry + ky⟩ ⟨right - rx + kx, bottom⟩ ⟨right - rx, bottom⟩,
    .lineTo ⟨left + rx, bottom⟩,
    .cubic ⟨left + rx - kx, bottom⟩ ⟨left, bottom - ry + ky⟩ ⟨left, bottom - ry⟩,
    .lineTo ⟨left, top + ry⟩,
    .cubic ⟨left, top + ry - ky⟩ ⟨left + rx - kx, top⟩ ⟨left + rx, top⟩,
    .close]

/-- A path with rounded numbers, if there is anything to draw. -/
def trace? (commands : List (Command Float)) : Option Outline :=
  if commands.isEmpty then none else some (.trace (commands.map (.map .ofFloat)))

/-- The outline of a shape. Without points or commands there is none. -/
def ofShape? : Shape → Option Outline
  | .rectangle frame rx ry =>
    if 0.0 < rx && 0.0 < ry then trace? (rounded frame rx ry)
    else some (.rectangle (frame.map .ofFloat))
  | .ellipse center radius => some (.oval ((Rect.around center radius).map .ofFloat))
  | .line start stop => trace? (Command.through [start, stop])
  | .polygon points =>
    if points.isEmpty then none else trace? (Command.through points ++ [.close])
  | .polyline points => trace? (Command.through points)
  | .path commands => trace? commands

end Outline

end IconCode

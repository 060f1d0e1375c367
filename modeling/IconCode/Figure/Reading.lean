import IconCode.Code.Reading
import IconCode.Figure.Basic

/-!
# Reading figures

The figures that tokens are the drawing code of. Nothing is checked: for tokens of no drawing code
the figures are any.
-/

namespace IconCode

open Code (Token)
open Code.Token
open Decimal (Hundredths)

namespace Command

/-- The command of a method and its numbers. -/
def ofCall? : String → List Hundredths → Option (Command Hundredths)
  | "move_to", [x, y] => some (.moveTo ⟨x, y⟩)
  | "line_to", [x, y] => some (.lineTo ⟨x, y⟩)
  | "quad_to", [cx, cy, x, y] => some (.quadratic ⟨cx, cy⟩ ⟨x, y⟩)
  | "cubic_to", [cx, cy, dx, dy, x, y] => some (.cubic ⟨cx, cy⟩ ⟨dx, dy⟩ ⟨x, y⟩)
  | "close", [] => some .close
  | _, _ => none

/-- The commands among the calls of methods. -/
def read : List Token → List (Command Hundredths)
  | .atom name :: ts =>
    match ts with
    | .group _ arguments :: _ => (ofCall? name (numbersIn arguments)).toList ++ read ts
    | _ => read ts
  | .group _ _ :: ts => read ts
  | [] => []

end Command

/-- An outline by the call that makes its frame a path, or by the calls in a block. -/
def Outline.read? (ts : List Token) : Option Outline :=
  match ts with
  | .group _ inside :: _ => some (.trace (Command.read inside))
  | _ =>
    match numbersIn (inner (after "from_xywh" ts)) with
    | [x, y, width, height] =>
      if ts.any (isAtom "map") then some (.rectangle ⟨x, y, width, height⟩)
      else some (.oval ⟨x, y, width, height⟩)
    | _ => none

/-- The colour of a paint where there is no tint. -/
def Tone.read? (paint : String) (ts : List Token) : Option Tone :=
  let color := inner (after "set_color" (after paint (inner (after "else" ts))))
  match numbersIn (inner (after "from_rgba" color)) with
  | [r, g, b, a] => some ⟨r, g, b, a⟩
  | _ => none

def Fill.read? (ts : List Token) : Option Fill :=
  let rule := if (inner (after "fill_path" ts)).any (isAtom "EvenOdd") then .evenodd else .nonzero
  (Tone.read? "fill_paint" ts).map fun tone => ⟨rule, tone⟩

def Stroke.read? (ts : List Token) : Option Stroke :=
  match numbersIn (inner (after "Stroke" ts)) with
  | [width] => (Tone.read? "stroke_paint" ts).map fun tone => ⟨width, tone⟩
  | _ => none

namespace Figure

mutual

/-- The figure whose block a token is. The block of a leaf begins with a declaration, that of a
group with the block of its first child. -/
def read? : Token → Option Figure
  | .atom _ => none
  | .group _ inside =>
    if inside.head?.all isGroup then some (.group (readAll inside))
    else
      let paint := lastInner inside
      (Outline.read? (after "=" inside)).map fun outline =>
        .leaf outline (Fill.read? paint) (Stroke.read? paint)

/-- The figures whose blocks come first. -/
def readAll : List Token → List Figure
  | [] => []
  | t :: ts =>
    match read? t with
    | none => []
    | some figure => figure :: readAll ts

end

end Figure

end IconCode

import IconCode.Decimal.Shortest
import IconCode.Text.Blank

/-!
# Colours
-/

namespace IconCode

/-- A colour with channels between 0 and 1. -/
structure Color where
  r : Float
  g : Float
  b : Float
  a : Float
deriving DecidableEq

namespace Color

/-- No paint, as opposed to no declaration of one. -/
def clear : Color := ⟨0.0, 0.0, 0.0, 0.0⟩

def black : Color := ⟨0.0, 0.0, 0.0, 1.0⟩

/-- An opaque colour. -/
def solid (r g b : Float) : Color := ⟨r, g, b, 1.0⟩

def withAlpha (c : Color) (a : Float) : Color := { c with a }

/-- Whether all channels are zero; the sign of a zero does not matter. -/
def isClear (c : Color) : Bool := c.r == 0.0 && c.g == 0.0 && c.b == 0.0 && c.a == 0.0

/-- An opaque colour from channels that count up to `top`. -/
def ofChannels (top r g b : Nat) : Color :=
  solid (r.toFloat / top.toFloat) (g.toFloat / top.toFloat) (b.toFloat / top.toFloat)

/-- An opaque colour from three bytes. -/
def ofBytes (r g b : Nat) : Color := ofChannels 255 r g b

/-! ## Names -/

/-- The colours with a name, as bytes. -/
def table : List (String × Nat × Nat × Nat) := [
  ("black", 0, 0, 0),
  ("silver", 192, 192, 192),
  ("gray", 128, 128, 128),
  ("grey", 128, 128, 128),
  ("white", 255, 255, 255),
  ("maroon", 128, 0, 0),
  ("red", 255, 0, 0),
  ("purple", 128, 0, 128),
  ("fuchsia", 255, 0, 255),
  ("magenta", 255, 0, 255),
  ("green", 0, 128, 0),
  ("lime", 0, 255, 0),
  ("olive", 128, 128, 0),
  ("yellow", 255, 255, 0),
  ("navy", 0, 0, 128),
  ("blue", 0, 0, 255),
  ("teal", 0, 128, 128),
  ("aqua", 0, 255, 255),
  ("cyan", 0, 255, 255),
  ("orange", 255, 165, 0)]

/-- The names of no paint. -/
def clearNames : List String := ["none", "transparent"]

/-- The colour of a name in any ASCII case. -/
def named? (name : List Char) : Option Color :=
  if clearNames.any (Text.equalsIgnoringCase name ·.toList) then some clear
  else
    (table.find? fun entry => Text.equalsIgnoringCase name entry.1.toList).map
      fun (_, r, g, b) => ofBytes r g b

/-! ## Text -/

/-- The channels under their names, each with its shortest digits. -/
def description (c : Color) : String :=
  "Color \x7b r: " ++ Decimal.shortest c.r ++ ", g: " ++ Decimal.shortest c.g ++ ", b: "
    ++ Decimal.shortest c.b ++ ", a: " ++ Decimal.shortest c.a ++ " \x7d"

end Color

end IconCode

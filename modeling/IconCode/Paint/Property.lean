import IconCode.Number.Parser
import IconCode.Paint.ColorParser
import IconCode.Paint.Style

/-!
# Properties

The names under which paint is declared, and what a declaration sets. Attributes and the clauses of
a declaration block share this table.
-/

namespace IconCode

inductive Property where
  | fill
  | fillOpacity
  | stroke
  | strokeWidth
  | strokeOpacity
  | opacity
  | fillRule
deriving DecidableEq, Repr

namespace Property

def name : Property → String
  | .fill => "fill"
  | .fillOpacity => "fill-opacity"
  | .stroke => "stroke"
  | .strokeWidth => "stroke-width"
  | .strokeOpacity => "stroke-opacity"
  | .opacity => "opacity"
  | .fillRule => "fill-rule"

def all : List Property :=
  [.fill, .fillOpacity, .stroke, .strokeWidth, .strokeOpacity, .opacity, .fillRule]

def ofName? (name : String) : Option Property := all.find? (·.name == name)

/-- The style that a value of the property declares: the one field is set, the others are not. -/
def declare (p : Property) (value : List Char) : Except ReadError Style :=
  match p with
  | .fill => (Color.parse value).map fun c => { fill := some c }
  | .fillOpacity => (Number.number value).map fun x => { fillOpacity := some x }
  | .stroke => (Color.parse value).map fun c => { stroke := some c }
  | .strokeWidth => (Number.length value).map fun x => { strokeWidth := some x }
  | .strokeOpacity => (Number.number value).map fun x => { strokeOpacity := some x }
  | .opacity => (Number.number value).map fun x => { opacity := some x }
  | .fillRule => .ok { fillRule := some (.ofText value) }

end Property

end IconCode

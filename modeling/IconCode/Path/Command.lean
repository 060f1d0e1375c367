import IconCode.Geometry.Basic

/-!
# Path commands

What a path consists of after everything relative and abbreviated is worked out.
-/

namespace IconCode

/-- A drawing command with absolute coordinates. -/
inductive Command (α : Type) where
  | moveTo (target : Point α)
  | lineTo (target : Point α)
  | quadratic (control target : Point α)
  | cubic (control₁ control₂ target : Point α)
  | close
deriving DecidableEq

namespace Command

variable {α β : Type}

def map (f : α → β) : Command α → Command β
  | .moveTo p => .moveTo (p.map f)
  | .lineTo p => .lineTo (p.map f)
  | .quadratic c p => .quadratic (c.map f) (p.map f)
  | .cubic c d p => .cubic (c.map f) (d.map f) (p.map f)
  | .close => .close

/-- The point where a command ends, if it names one. -/
def end? : Command α → Option (Point α)
  | .moveTo p => some p
  | .lineTo p => some p
  | .quadratic _ p => some p
  | .cubic _ _ p => some p
  | .close => none

/-- A path from point to point. -/
def through : List (Point α) → List (Command α)
  | [] => []
  | p :: ps => .moveTo p :: ps.map .lineTo

end Command

end IconCode

import IconCode.Geometry.Scalar

/-!
# Points, sizes and rectangles
-/

namespace IconCode

structure Point (α : Type) where
  x : α
  y : α
deriving DecidableEq

structure Size (α : Type) where
  width : α
  height : α
deriving DecidableEq

/-- A rectangle along the axes. -/
structure Rect (α : Type) where
  x : α
  y : α
  width : α
  height : α
deriving DecidableEq

variable {α β : Type}

namespace Point

def map (f : α → β) (p : Point α) : Point β := ⟨f p.x, f p.y⟩

variable [Scalar α]

def zero : Point α := ⟨0.0, 0.0⟩

instance : Add (Point α) := ⟨fun p q => ⟨p.x + q.x, p.y + q.y⟩⟩

instance : Sub (Point α) := ⟨fun p q => ⟨p.x - q.x, p.y - q.y⟩⟩

instance : HMul (Point α) α (Point α) := ⟨fun p k => ⟨p.x * k, p.y * k⟩⟩

/-- The image of `q` under the point reflection in `p`. -/
def reflect (p q : Point α) : Point α := ⟨2.0 * p.x - q.x, 2.0 * p.y - q.y⟩

end Point

namespace Size

def zero [Scalar α] : Size α := ⟨0.0, 0.0⟩

end Size

namespace Rect

def zero [Scalar α] : Rect α := ⟨0.0, 0.0, 0.0, 0.0⟩

def ofOriginSize (p : Point α) (s : Size α) : Rect α := ⟨p.x, p.y, s.width, s.height⟩

def origin (r : Rect α) : Point α := ⟨r.x, r.y⟩

def size (r : Rect α) : Size α := ⟨r.width, r.height⟩

/-- The smallest rectangle around the ellipse with the given centre and radii. -/
def around [Scalar α] (center : Point α) (radius : Size α) : Rect α :=
  ⟨center.x - radius.width, center.y - radius.height, radius.width * 2.0, radius.height * 2.0⟩

end Rect

end IconCode

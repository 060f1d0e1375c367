import IconCode.Path.Arc

/-!
# Instructions

Path data is a sequence of instructions to a pen. An instruction is one command letter with one
group of arguments; its coordinates may count from where the pen is.

* `ofArguments?_isSome_iff`: a letter takes exactly as many arguments as its arity says.
-/

namespace IconCode

/-! ## Letters -/

/-- What a command letter asks for, whichever its case. -/
inductive Verb where
  | moveTo
  | lineTo
  | horizontal
  | vertical
  | quadratic
  | smoothQuadratic
  | cubic
  | smoothCubic
  | arc
  | close
deriving DecidableEq, Repr

namespace Verb

def ofLetter? (c : Char) : Option Verb :=
  match c.toUpper with
  | 'M' => some .moveTo
  | 'L' => some .lineTo
  | 'H' => some .horizontal
  | 'V' => some .vertical
  | 'Q' => some .quadratic
  | 'T' => some .smoothQuadratic
  | 'C' => some .cubic
  | 'S' => some .smoothCubic
  | 'A' => some .arc
  | 'Z' => some .close
  | _ => none

/-- How many arguments a group has. -/
def arity : Verb → Nat
  | .moveTo | .lineTo | .smoothQuadratic => 2
  | .horizontal | .vertical => 1
  | .quadratic | .smoothCubic => 4
  | .cubic => 6
  | .arc => 7
  | .close => 0

end Verb

/-! ## Instructions -/

/-- A letter with one group of its arguments. -/
inductive Instruction (α : Type) where
  | moveTo (target : Point α)
  | lineTo (target : Point α)
  | horizontal (x : α)
  | vertical (y : α)
  | quadratic (control target : Point α)
  | smoothQuadratic (target : Point α)
  | cubic (control₁ control₂ target : Point α)
  | smoothCubic (control₂ target : Point α)
  | arc (radius : Size α) (rotation : α) (large sweep : Bool) (target : Point α)
  | close
deriving DecidableEq

namespace Instruction

variable {α : Type} [Scalar α]

/-- The instruction of a group of arguments; flags are set unless they are zero. -/
def ofArguments? : Verb → List α → Option (Instruction α)
  | .moveTo, [x, y] => some (.moveTo ⟨x, y⟩)
  | .lineTo, [x, y] => some (.lineTo ⟨x, y⟩)
  | .horizontal, [x] => some (.horizontal x)
  | .vertical, [y] => some (.vertical y)
  | .quadratic, [cx, cy, x, y] => some (.quadratic ⟨cx, cy⟩ ⟨x, y⟩)
  | .smoothQuadratic, [x, y] => some (.smoothQuadratic ⟨x, y⟩)
  | .cubic, [cx, cy, dx, dy, x, y] => some (.cubic ⟨cx, cy⟩ ⟨dx, dy⟩ ⟨x, y⟩)
  | .smoothCubic, [dx, dy, x, y] => some (.smoothCubic ⟨dx, dy⟩ ⟨x, y⟩)
  | .arc, [rx, ry, rotation, large, sweep, x, y] =>
    some (.arc ⟨rx, ry⟩ rotation (!Scalar.isZero large) (!Scalar.isZero sweep) ⟨x, y⟩)
  | .close, [] => some .close
  | _, _ => none

theorem ofArguments?_isSome_iff (v : Verb) (xs : List α) :
    (ofArguments? v xs).isSome = true ↔ xs.length = v.arity := by
  rcases xs with _ | ⟨a, _ | ⟨b, _ | ⟨c, _ | ⟨d, _ | ⟨e, _ | ⟨f, _ | ⟨g, _ | ⟨h, r⟩⟩⟩⟩⟩⟩⟩⟩ <;>
    cases v <;> simp [ofArguments?, Verb.arity]

/-- The instruction with every coordinate moved by an offset. Only the end of an arc is a
coordinate. -/
def offset (delta : Point α) : Instruction α → Instruction α
  | .moveTo p => .moveTo (p + delta)
  | .lineTo p => .lineTo (p + delta)
  | .horizontal x => .horizontal (x + delta.x)
  | .vertical y => .vertical (y + delta.y)
  | .quadratic c p => .quadratic (c + delta) (p + delta)
  | .smoothQuadratic p => .smoothQuadratic (p + delta)
  | .cubic c d p => .cubic (c + delta) (d + delta) (p + delta)
  | .smoothCubic d p => .smoothCubic (d + delta) (p + delta)
  | .arc radius rotation large sweep p => .arc radius rotation large sweep (p + delta)
  | .close => .close

end Instruction

end IconCode

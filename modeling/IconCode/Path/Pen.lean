import IconCode.Path.Instruction

/-!
# The pen

Between instructions a pen remembers where it is, where the current subpath began, and the control
point that a smooth curve continues.

* `drawAll_append`: drawing goes on from the pen that the first part leaves.
-/

namespace IconCode

/-- What later instructions depend on. The control point is the pen's own place unless the last
instruction drew a curve. -/
structure Pen (α : Type) where
  point : Point α
  control : Point α
  start : Point α
deriving DecidableEq

/-- Whether coordinates count from the origin or from the pen. -/
inductive Reference where
  | absolute
  | relative
deriving DecidableEq, Repr

namespace Pen

variable {α : Type} [Scalar α]

def atOrigin : Pen α := ⟨.zero, .zero, .zero⟩

/-- The pen at a new place, with nothing to continue. -/
def moved (pen : Pen α) (p : Point α) : Pen α := { pen with point := p, control := p }

/-- The pen after a curve. -/
def curved (pen : Pen α) (p control : Point α) : Pen α := { pen with point := p, control }

/-- The control point that continues the last curve smoothly. -/
def reflected (pen : Pen α) : Point α := pen.point.reflect pen.control

/-- What an instruction with absolute coordinates draws, and the pen after it. -/
def draw (pen : Pen α) : Instruction α → List (Command α) × Pen α
  | .moveTo p => ([.moveTo p], { point := p, control := p, start := p })
  | .lineTo p => ([.lineTo p], pen.moved p)
  | .horizontal x =>
    let p : Point α := ⟨x, pen.point.y⟩
    ([.lineTo p], pen.moved p)
  | .vertical y =>
    let p : Point α := ⟨pen.point.x, y⟩
    ([.lineTo p], pen.moved p)
  | .quadratic c p => ([.quadratic c p], pen.curved p c)
  | .smoothQuadratic p => ([.quadratic pen.reflected p], pen.curved p pen.reflected)
  | .cubic c d p => ([.cubic c d p], pen.curved p d)
  | .smoothCubic d p => ([.cubic pen.reflected d p], pen.curved p d)
  | .arc radius rotation large sweep p =>
    (Arc.commands ⟨pen.point, p, radius, rotation, large, sweep⟩, pen.moved p)
  | .close => ([.close], pen.moved pen.start)

/-- The place that coordinates count from. -/
def base (pen : Pen α) : Reference → Point α
  | .absolute => .zero
  | .relative => pen.point

/-- What an instruction draws, and the pen after it. -/
def apply (pen : Pen α) (reference : Reference) (i : Instruction α) : List (Command α) × Pen α :=
  pen.draw (i.offset (pen.base reference))

/-- What a sequence of instructions draws, and the pen after it. -/
def drawAll (pen : Pen α) : List (Reference × Instruction α) → List (Command α) × Pen α
  | [] => ([], pen)
  | (reference, i) :: rest =>
    let step := pen.apply reference i
    let after := step.2.drawAll rest
    (step.1 ++ after.1, after.2)

theorem drawAll_append (pen : Pen α) (is js : List (Reference × Instruction α)) :
    pen.drawAll (is ++ js) =
      ((pen.drawAll is).1 ++ ((pen.drawAll is).2.drawAll js).1,
        ((pen.drawAll is).2.drawAll js).2) := by
  induction is generalizing pen with
  | nil => simp [drawAll]
  | cons i is ih => simp [drawAll, ih, List.append_assoc]

end Pen

end IconCode

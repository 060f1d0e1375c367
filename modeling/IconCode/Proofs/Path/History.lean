import IconCode.Proofs.Geometry.Doubling
import IconCode.Proofs.Path.Relative

/-!
# What a pen remembers

All that a pen remembers can be read off the commands drawn so far and the last instruction: where
the subpath began, where the instruction ended, and the control point that a smooth curve continues.
After anything but a curve that point is the pen's own place, so a smooth curve sets out straight.
With doubles this needs a place whose coordinates can be doubled.

* `Pen.recalls_draw`: one instruction, whatever was drawn before.
* `Pen.recalls_drawAll`: so it is after every instruction of a sequence.
* `Point.reflect_self`: a point is its own mirror image, up to an overflow.
* `drawAll_recalls`: the pen after every group of path data, and the smooth curves that follow.
* `not_reflected_eq_point`: why a place whose double overflows is left out.
-/

namespace IconCode

section Remembered

variable {α : Type}

/-! ## Drawn commands -/

/-- The point that a command moves to. -/
def Command.move? : Command α → Option (Point α)
  | .moveTo p => some p
  | _ => none

variable [Scalar α]

/-- The point of the last move, or the origin before the first one. -/
def subpathStart (drawn : List (Command α)) : Point α :=
  (drawn.reverse.findSome? Command.move?).getD .zero

theorem subpathStart_append (drawn cs : List (Command α)) :
    subpathStart (drawn ++ cs) = (cs.reverse.findSome? Command.move?).getD (subpathStart drawn) := by
  rw [subpathStart, List.reverse_append, List.findSome?_append]
  cases cs.reverse.findSome? Command.move? <;> rfl

/-- Commands without a move go on with the subpath. -/
theorem subpathStart_append_of_none {cs : List (Command α)} (h : ∀ c ∈ cs, c.move? = none)
    (drawn : List (Command α)) : subpathStart (drawn ++ cs) = subpathStart drawn := by
  have hnone : cs.reverse.findSome? Command.move? = none :=
    List.findSome?_eq_none_iff.2 fun c hc => h c (List.mem_reverse.1 hc)
  rw [subpathStart_append, hnone, Option.getD_none]

theorem Arc.move?_of_mem_commands {r : Arc.Request α} {c : Command α} (h : c ∈ Arc.commands r) :
    c.move? = none := by
  unfold Arc.commands at h
  split at h
  · cases h
  · obtain ⟨curve, -, rfl⟩ := List.mem_map.1 h
    rfl

/-! ## Pens -/

/-- Whether an instruction draws a curve that a smooth one continues. -/
def Instruction.isCurve : Instruction α → Bool
  | .quadratic .. | .smoothQuadratic .. | .cubic .. | .smoothCubic .. => true
  | _ => false

theorem Instruction.isCurve_offset (delta : Point α) (i : Instruction α) :
    (i.offset delta).isCurve = i.isCurve := by
  cases i <;> rfl

namespace Pen

/-- What a pen remembers once some commands are drawn, the last ones by an instruction in absolute
terms: the last move, where the instruction ended, and the last control point if it was a curve. An
arc ends where it was asked to end, even if it drew nothing. -/
structure Recalls (pen : Pen α) (drawn : List (Command α)) (last : Instruction α) : Prop where
  start : pen.start = subpathStart drawn
  point : match last with
    | .arc _ _ _ _ target => pen.point = target
    | .close => pen.point = pen.start
    | _ => drawn.getLast?.bind Command.end? = some pen.point
  control : match last with
    | .quadratic .. | .smoothQuadratic .. =>
      drawn.getLast? = some (.quadratic pen.control pen.point)
    | .cubic .. | .smoothCubic .. => ∃ c, drawn.getLast? = some (.cubic c pen.control pen.point)
    | _ => pen.control = pen.point

/-- A pen that knows where the subpath began knows all it should after one more instruction. -/
theorem recalls_draw {pen : Pen α} {drawn : List (Command α)}
    (h : pen.start = subpathStart drawn) (i : Instruction α) :
    (pen.draw i).2.Recalls (drawn ++ (pen.draw i).1) i := by
  have hkept : ∀ c : Command α, c.move? = none →
      pen.start = subpathStart (drawn ++ [c]) := by
    intro c hc
    rw [subpathStart_append_of_none (by simpa using hc), h]
  cases i with
  | moveTo p =>
    have hstart : p = subpathStart (drawn ++ [.moveTo p]) := by
      rw [subpathStart_append]
      rfl
    exact ⟨hstart, by simp [draw, Command.end?], rfl⟩
  | lineTo p => exact ⟨hkept _ rfl, by simp [draw, moved, Command.end?], rfl⟩
  | horizontal x => exact ⟨hkept _ rfl, by simp [draw, moved, Command.end?], rfl⟩
  | vertical y => exact ⟨hkept _ rfl, by simp [draw, moved, Command.end?], rfl⟩
  | quadratic c p =>
    exact ⟨hkept _ rfl, by simp [draw, curved, Command.end?], by simp [draw, curved]⟩
  | smoothQuadratic p =>
    exact ⟨hkept _ rfl, by simp [draw, curved, Command.end?], by simp [draw, curved]⟩
  | cubic c d p =>
    exact ⟨hkept _ rfl, by simp [draw, curved, Command.end?], by simp [draw, curved]⟩
  | smoothCubic d p =>
    exact ⟨hkept _ rfl, by simp [draw, curved, Command.end?], by simp [draw, curved]⟩
  | arc radius rotation large sweep p =>
    refine ⟨?_, rfl, rfl⟩
    rw [draw, subpathStart_append_of_none fun _ => Arc.move?_of_mem_commands]
    exact h
  | close => exact ⟨hkept _ rfl, rfl, rfl⟩

theorem Recalls.getLast?_of_isCurve {pen : Pen α} {drawn : List (Command α)}
    {last : Instruction α} (h : pen.Recalls drawn last) (hcurve : last.isCurve = true) :
    drawn.getLast? = some (.quadratic pen.control pen.point) ∨
      ∃ b, drawn.getLast? = some (.cubic b pen.control pen.point) := by
  have hcontrol := h.control
  cases last with
  | quadratic => exact .inl hcontrol
  | smoothQuadratic => exact .inl hcontrol
  | cubic => exact .inr hcontrol
  | smoothCubic => exact .inr hcontrol
  | _ => cases hcurve

theorem Recalls.control_of_not_isCurve {pen : Pen α} {drawn : List (Command α)}
    {last : Instruction α} (h : pen.Recalls drawn last) (hcurve : last.isCurve = false) :
    pen.control = pen.point := by
  have hcontrol := h.control
  cases last <;> first | exact hcontrol | cases hcurve

theorem drawAll_concat (pen : Pen α) (is : List (Reference × Instruction α))
    (reference : Reference) (i : Instruction α) :
    pen.drawAll (is ++ [(reference, i)]) =
      ((pen.drawAll is).1 ++ ((pen.drawAll is).2.apply reference i).1,
        ((pen.drawAll is).2.apply reference i).2) := by
  simp [drawAll_append, drawAll]

/-- Where the subpath began after a sequence of instructions. -/
theorem start_drawAll (is : List (Reference × Instruction α)) :
    (atOrigin.drawAll is).2.start = subpathStart (atOrigin.drawAll is).1 := by
  induction is using List.reverseRecOn with
  | nil => rfl
  | append_singleton is g ih =>
    rw [drawAll_concat]
    exact (recalls_draw ih _).start

theorem recalls_drawAll (is : List (Reference × Instruction α)) (reference : Reference)
    (i : Instruction α) :
    (atOrigin.drawAll (is ++ [(reference, i)])).2.Recalls
      (atOrigin.drawAll (is ++ [(reference, i)])).1
      (i.offset ((atOrigin.drawAll is).2.base reference)) := by
  rw [drawAll_concat]
  exact recalls_draw (start_drawAll is) _

end Pen

end Remembered

/-! ## Smooth curves -/

theorem Point.reflect_self {p : Point Float} (h : p.Settled) (hx : (2.0 * p.x).isFinite = true)
    (hy : (2.0 * p.y).isFinite = true) : p.reflect p = p :=
  congrArg₂ Point.mk (Double.two_mul_sub_self h.1 hx) (Double.two_mul_sub_self h.2 hy)

namespace Path

/-- After each group of path data the pen remembers what the commands up to there say, and the rest
of the text is drawn by that pen. The control point that a smooth curve sets out for is the mirror
image of the last control point if the group drew a curve, and otherwise, unless the double of the
pen's place overflows, the place itself. -/
theorem drawAll_recalls (is : List (Reference × Instruction Float)) (reference : Reference)
    (i : Instruction Float) :
    let before := Pen.atOrigin.drawAll is
    let after := Pen.atOrigin.drawAll (is ++ [(reference, i)])
    (∀ data rest, instructions data = .ok (is ++ (reference, i) :: rest) →
        parse data = .ok (after.1 ++ (after.2.drawAll rest).1)) ∧
      after.2.Recalls after.1 (i.offset (before.2.base reference)) ∧
      (∀ next d p,
        (after.2.apply next (.smoothQuadratic p)).1 =
            [.quadratic after.2.reflected (p + after.2.base next)] ∧
          (after.2.apply next (.smoothCubic d p)).1 =
            [.cubic after.2.reflected (d + after.2.base next) (p + after.2.base next)]) ∧
      (i.isCurve = true →
        ∃ c p, after.2.reflected = p.reflect c ∧
          (after.1.getLast? = some (.quadratic c p) ∨
            ∃ b, after.1.getLast? = some (.cubic b c p))) ∧
      (i.isCurve = false →
        (2.0 * after.2.point.x).isFinite = true → (2.0 * after.2.point.y).isFinite = true →
          after.2.reflected = after.2.point) := by
  intro before after
  have hrecalls := Pen.recalls_drawAll is reference i
  refine ⟨?_, hrecalls, fun _ _ _ => ⟨rfl, rfl⟩, ?_, ?_⟩
  · intro data rest hdata
    refine parse_eq_ok_iff.2 ⟨_, hdata, ?_⟩
    rw [List.append_cons, Pen.drawAll_append]
  · intro hcurve
    exact ⟨_, _, rfl, hrecalls.getLast?_of_isCurve (by rwa [Instruction.isCurve_offset])⟩
  · intro hcurve hx hy
    have hsettled : after.2.point.Settled := (Pen.settled_atOrigin.drawAll _).point
    rw [Pen.reflected, hrecalls.control_of_not_isCurve (by rwa [Instruction.isCurve_offset])]
    exact Point.reflect_self hsettled hx hy

/-- A move and a curve from there. -/
def curvedGroups : List (Reference × Instruction Float) :=
  [(.absolute, .moveTo ⟨1.0, 2.0⟩), (.relative, .quadratic ⟨3.0, 4.0⟩ ⟨5.0, 6.0⟩)]

/-- The pen after the curve and the pen back at the start of the closed subpath. -/
theorem drawAll_recalls_closed :
    let curved := Pen.atOrigin.drawAll curvedGroups
    let closed := Pen.atOrigin.drawAll (curvedGroups ++ [(.relative, .close)])
    parse "M1 2q3 4 5 6z".toList = .ok closed.1 ∧
      (∃ c p, curved.2.reflected = p.reflect c ∧
        (curved.1.getLast? = some (.quadratic c p) ∨
          ∃ b, curved.1.getLast? = some (.cubic b c p))) ∧
      closed.2.reflected = closed.2.point ∧ closed.2.point = ⟨1.0, 2.0⟩ := by
  have hread : instructions "M1 2q3 4 5 6z".toList = .ok (curvedGroups ++ [(.relative, .close)]) :=
    toOption_eq_some_iff.1 (by decide +kernel)
  obtain ⟨-, -, -, hcurved, -⟩ :=
    drawAll_recalls [(.absolute, .moveTo ⟨1.0, 2.0⟩)] .relative (.quadratic ⟨3.0, 4.0⟩ ⟨5.0, 6.0⟩)
  obtain ⟨hparse, -, -, -, hclosed⟩ := drawAll_recalls curvedGroups .relative .close
  have hdrawn := hparse _ [] hread
  rw [Pen.drawAll, List.append_nil] at hdrawn
  exact ⟨hdrawn, hcurved rfl, hclosed rfl (by decide +kernel) (by decide +kernel),
    by decide +kernel⟩

/-- A place whose double overflows is no mirror image of its own. -/
theorem not_reflected_eq_point :
    ¬ ∀ (data : List Char) (is : List (Reference × Instruction Float)) (reference : Reference)
        (i : Instruction Float),
      instructions data = .ok (is ++ [(reference, i)]) → i.isCurve = false →
        (Pen.atOrigin.drawAll (is ++ [(reference, i)])).2.reflected =
          (Pen.atOrigin.drawAll (is ++ [(reference, i)])).2.point := by
  intro h
  have hread : instructions "M1e308 0".toList = .ok [(.absolute, .moveTo ⟨1e308, 0.0⟩)] :=
    toOption_eq_some_iff.1 (by decide +kernel)
  have hpoint := h _ [] .absolute _ hread rfl
  exact absurd hpoint (by decide +kernel)

end Path

end IconCode

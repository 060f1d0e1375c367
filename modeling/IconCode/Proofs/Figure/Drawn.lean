import IconCode.Figure.Lower
import IconCode.Proofs.Figure.Tokens
import IconCode.Proofs.Outcome

/-!
# What is drawn of an element

The figure of an element is worked out leaf by leaf in document order. A leaf is at fault if one of
its colours cannot be written, the fill before the stroke. The first leaf at fault is the error of
the whole; without one, every element that shows anything has its figure.

* `Figure.ofElements_eq`: the figures of elements, or the first fault.
* `tokens_eq_iff_drawForm_eq`: the code of elements is the same exactly if what is drawn of them is
  the same.
-/

namespace IconCode

open Decimal (Hundredths)

/-! ## Colours -/

/-- Whether all channels are between 0 and 1. -/
def Color.InRange (c : Color) : Prop := ∀ x ∈ [c.r, c.g, c.b, c.a], Color.isUnit x = true

instance (c : Color) : Decidable c.InRange :=
  inferInstanceAs (Decidable (∀ x ∈ [c.r, c.g, c.b, c.a], Color.isUnit x = true))

namespace Tone

/-- The alpha of a colour with an opacity, held between 0 and 1. -/
def alpha (c : Color) (opacity : Float) : Float :=
  Scalar.atMost 1.0 (Scalar.atLeast 0.0 (c.a * opacity))

/-- The rounded colour with its alpha scaled, whether or not it can be written. -/
def scaled (c : Color) (opacity : Float) : Tone :=
  ⟨.ofFloat c.r, .ofFloat c.g, .ofFloat c.b, .ofFloat (alpha c opacity)⟩

/-- Whether a colour can be written with an opacity. -/
def Writable (c : Color) (opacity : Float) : Prop := c.InRange ∧ opacity.isFinite = true

instance (c : Color) (opacity : Float) : Decidable (Writable c opacity) :=
  inferInstanceAs (Decidable (c.InRange ∧ opacity.isFinite = true))

theorem ofColor_eq (c : Color) (opacity : Float) :
    ofColor c opacity =
      if Writable c opacity then .ok (scaled c opacity) else .error (.unsupportedColor c) := by
  have hcond : ([c.r, c.g, c.b, c.a].all Color.isUnit && opacity.isFinite) = true ↔
      Writable c opacity := by
    rw [Bool.and_eq_true, List.all_eq_true]
    rfl
  unfold ofColor
  by_cases h : Writable c opacity
  · rw [if_pos h, if_pos (hcond.2 h)]
    rfl
  · rw [if_neg h, if_neg (mt hcond.1 h)]

end Tone

/-- A value unless there is a colour that cannot be written. -/
def unlessFault {α : Type} (fault? : Option Color) (a : α) : Except DrawError α :=
  match fault? with
  | some c => .error (.unsupportedColor c)
  | none => .ok a

/-! ## Paint -/

namespace Style

/-- How the inside is painted, if it is. -/
def fillForm? (s : Style) : Option Fill :=
  s.activeFill?.map fun c =>
    ⟨s.effectiveFillRule, .scaled c (s.effectiveFillOpacity * s.effectiveOpacity)⟩

/-- How the outline is painted, if it is. -/
def strokeForm? (s : Style) : Option Stroke :=
  s.activeStroke?.map fun c =>
    ⟨.ofFloat s.effectiveStrokeWidth,
      .scaled c (s.effectiveStrokeOpacity * s.effectiveOpacity)⟩

/-- The colour of the inside if it cannot be written. -/
def fillFault? (s : Style) : Option Color :=
  s.activeFill?.filter fun c =>
    ¬ Tone.Writable c (s.effectiveFillOpacity * s.effectiveOpacity)

/-- The colour of the outline if it cannot be written. -/
def strokeFault? (s : Style) : Option Color :=
  s.activeStroke?.filter fun c =>
    ¬ Tone.Writable c (s.effectiveStrokeOpacity * s.effectiveOpacity)

/-- The first colour that cannot be written. -/
def fault? (s : Style) : Option Color := s.fillFault?.or s.strokeFault?

/-- What becomes of an active colour: it is at fault, or there is something of its tone. -/
theorem map_ofColor_eq {α : Type} (active : Option Color) (opacity : Float) (f : Tone → α) :
    (match active with
      | none => .ok none
      | some c => (Tone.ofColor c opacity).map fun tone => some (f tone)) =
      unlessFault (active.filter fun c => ¬ Tone.Writable c opacity)
        (active.map fun c => f (.scaled c opacity)) := by
  cases active with
  | none => rfl
  | some c =>
    simp only [Tone.ofColor_eq]
    by_cases h : Tone.Writable c opacity
    · simp [h, Option.filter, unlessFault, Except.map]
    · simp [h, Option.filter, unlessFault, Except.map]

theorem fillPaint_eq (s : Style) : s.fillPaint = unlessFault s.fillFault? s.fillForm? := by
  unfold fillPaint fillFault? fillForm?
  exact map_ofColor_eq _ _ fun tone => (⟨s.effectiveFillRule, tone⟩ : Fill)

theorem strokePaint_eq (s : Style) : s.strokePaint = unlessFault s.strokeFault? s.strokeForm? := by
  unfold strokePaint strokeFault? strokeForm?
  exact map_ofColor_eq _ _ fun tone => (⟨.ofFloat s.effectiveStrokeWidth, tone⟩ : Stroke)

/-- Without paint nothing is at fault. -/
theorem fault?_eq_none {s : Style} (h : s.paints = false) : s.fault? = none := by
  simp only [paints, Bool.or_eq_false_iff, Option.isSome_eq_false_iff, Option.isNone_iff_eq_none]
    at h
  simp [fault?, fillFault?, strokeFault?, h.1, h.2]

end Style

/-! ## Shapes -/

/-- Whether a shape has nothing to draw a line between. -/
def Shape.isEmpty : Shape → Bool
  | .polygon points => points.isEmpty
  | .polyline points => points.isEmpty
  | .path commands => commands.isEmpty
  | .rectangle .. | .ellipse .. | .line .. => false

/-- A path from point to point, with rounded numbers. -/
def roundedThrough (points : List (Point Float)) : List (Command Hundredths) :=
  match points with
  | [] => []
  | p :: ps => .moveTo (p.map .ofFloat) :: ps.map fun q => .lineTo (q.map .ofFloat)

/-- How a shape with geometry is drawn: as a path with its commands in their order, or as a frame.
All numbers are rounded. -/
def Shape.form : Shape → Outline
  | .rectangle frame rx ry =>
    if 0.0 < rx ∧ 0.0 < ry then .trace ((Outline.rounded frame rx ry).map (.map .ofFloat))
    else .rectangle (frame.map .ofFloat)
  | .ellipse center radius => .oval ((Rect.around center radius).map .ofFloat)
  | .line start stop => .trace [.moveTo (start.map .ofFloat), .lineTo (stop.map .ofFloat)]
  | .polygon points => .trace (roundedThrough points ++ [.close])
  | .polyline points => .trace (roundedThrough points)
  | .path commands => .trace (commands.map (.map .ofFloat))

theorem map_through (points : List (Point Float)) :
    (Command.through points).map (.map .ofFloat) = roundedThrough points := by
  cases points with
  | nil => rfl
  | cons p ps =>
    rw [Command.through, roundedThrough, List.map_cons, List.map_map]
    rfl

theorem through_eq_nil_iff (points : List (Point Float)) :
    Command.through points = [] ↔ points = [] := by
  cases points <;> simp [Command.through]

theorem Outline.trace?_eq (commands : List (Command Float)) :
    trace? commands =
      if commands = [] then none else some (.trace (commands.map (.map .ofFloat))) := by
  simp [trace?]

/-- A shape with geometry has its outline. -/
theorem Outline.ofShape?_eq (shape : Shape) :
    ofShape? shape = if shape.isEmpty then none else some shape.form := by
  cases shape with
  | rectangle frame rx ry =>
    have hround : rounded frame rx ry ≠ [] := by simp [rounded]
    by_cases hr : 0.0 < rx ∧ 0.0 < ry
    · simp [ofShape?, Shape.form, Shape.isEmpty, trace?_eq, hr, hround]
    · have hr' : (0.0 < rx && 0.0 < ry) = false := by simpa using hr
      simp [ofShape?, Shape.form, Shape.isEmpty, hr, hr']
  | ellipse center radius => rfl
  | line start stop => rfl
  | polygon points =>
    rw [ofShape?, trace?_eq, List.map_append, map_through]
    simp [Shape.form, Shape.isEmpty, Command.map]
  | polyline points =>
    simp only [ofShape?, trace?_eq, through_eq_nil_iff, map_through]
    simp [Shape.form, Shape.isEmpty]
  | path commands =>
    rw [ofShape?, trace?_eq]
    simp [Shape.form, Shape.isEmpty]

/-! ## Leaves -/

/-- A shape with the style that it is painted with. -/
structure Leaf where
  shape : Shape
  style : Style

namespace Leaf

/-- The colour of a leaf that cannot be written. A leaf that is not drawn has none. -/
def fault? (l : Leaf) : Option Color := if l.shape.isEmpty then none else l.style.fault?

/-- What is drawn of a leaf. -/
def drawForm (l : Leaf) : Option Figure :=
  if l.style.paints = true ∧ l.shape.isEmpty = false then
    some (.leaf l.shape.form l.style.fillForm? l.style.strokeForm?)
  else none

theorem drawForm_eq_none_iff (l : Leaf) :
    l.drawForm = none ↔ l.style.paints = false ∨ l.shape.isEmpty = true := by
  rw [drawForm, ite_eq_right_iff]
  cases l.style.paints <;> cases l.shape.isEmpty <;> simp

end Leaf

theorem Figure.ofLeaf_eq (shape : Shape) (style : Style) :
    ofLeaf shape style =
      unlessFault (Leaf.mk shape style).fault? (Leaf.mk shape style).drawForm := by
  unfold ofLeaf Leaf.fault? Leaf.drawForm
  cases hp : style.paints with
  | false => simp [Style.fault?_eq_none hp, unlessFault]
  | true =>
    cases he : shape.isEmpty with
    | true => simp [Outline.ofShape?_eq, he, unlessFault]
    | false =>
      simp only [Outline.ofShape?_eq, Style.fillPaint_eq, Style.strokePaint_eq, he, Style.fault?]
      cases style.fillFault? with
      | some c => simp [unlessFault]
      | none => cases style.strokeFault? <;> simp [unlessFault]

/-! ## Elements -/

namespace Element

mutual

/-- The leaves of an element in document order. -/
def leaves : Element → List Leaf
  | .leaf shape style => [⟨shape, style⟩]
  | .group children _ => leavesAll children

def leavesAll : List Element → List Leaf
  | [] => []
  | e :: es => e.leaves ++ leavesAll es

end

mutual

/-- What is drawn of an element: of a group what is drawn of its children, in their order. -/
def drawForm : Element → Option Figure
  | .leaf shape style => (Leaf.mk shape style).drawForm
  | .group children _ => some (.group (drawForms children))

/-- What is drawn of those elements that are drawn at all. -/
def drawForms : List Element → List Figure
  | [] => []
  | e :: es => e.drawForm.toList ++ drawForms es

end

/-- Whether nothing is drawn of an element: it is a leaf without paint or without geometry. -/
def Vanishes (e : Element) : Prop :=
  ∃ shape style, e = .leaf shape style ∧ (style.paints = false ∨ shape.isEmpty = true)

theorem drawForm_eq_none_iff (e : Element) : e.drawForm = none ↔ e.Vanishes := by
  cases e with
  | leaf shape style =>
    rw [drawForm, Leaf.drawForm_eq_none_iff]
    constructor
    · intro h
      exact ⟨shape, style, rfl, h⟩
    · rintro ⟨_, _, heq, h⟩
      cases heq
      exact h
  | group children style =>
    rw [drawForm]
    constructor
    · intro h
      cases h
    · rintro ⟨_, _, heq, -⟩
      cases heq

end Element

namespace Figure

mutual

theorem ofElement_eq : ∀ e : Element,
    ofElement e = unlessFault (e.leaves.findSome? Leaf.fault?) e.drawForm
  | .leaf shape style => by
    rw [ofElement, ofLeaf_eq, Element.leaves, Element.drawForm, List.findSome?_singleton]
  | .group children style => by
    rw [ofElement, ofElements_eq children, Element.leaves, Element.drawForm]
    cases (Element.leavesAll children).findSome? Leaf.fault? <;> rfl

theorem ofElements_eq : ∀ es : List Element,
    ofElements es =
      unlessFault ((Element.leavesAll es).findSome? Leaf.fault?) (Element.drawForms es)
  | [] => rfl
  | e :: es => by
    rw [ofElements, ofElement_eq e, ofElements_eq es, Element.leavesAll, Element.drawForms,
      List.findSome?_append]
    cases e.leaves.findSome? Leaf.fault? with
    | some c => rfl
    | none => cases (Element.leavesAll es).findSome? Leaf.fault? <;> rfl

end

end Figure

/-- Elements that have code have it exactly as far as anything is drawn of them, and the same code
exactly if the same is drawn of them. -/
theorem tokens_eq_iff_drawForm_eq {e e' : Element} {f f' : Option Figure}
    (h : Figure.ofElement e = .ok f) (h' : Figure.ofElement e' = .ok f') :
    (f = none ↔ e.Vanishes) ∧
      (f.map (·.code.tokens) = f'.map (·.code.tokens) ↔ e.drawForm = e'.drawForm) := by
  have hform : ∀ {e : Element} {f : Option Figure}, Figure.ofElement e = .ok f →
      f = e.drawForm := by
    intro e f h
    rw [Figure.ofElement_eq] at h
    cases hfault : e.leaves.findSome? Leaf.fault? with
    | some c => simp [hfault, unlessFault] at h
    | none =>
      rw [hfault] at h
      exact (Except.ok.inj h).symm
  rw [hform h, hform h', Element.drawForm_eq_none_iff]
  refine ⟨Iff.rfl, ?_, fun heq => by rw [heq]⟩
  intro htokens
  have hinj : Function.Injective fun f : Figure => f.code.tokens :=
    fun _ _ => Figure.code_tokens_injective
  exact Option.map_injective hinj htokens

/-- A stroke of width two in a group, along a line or along as many points. -/
def strokedLine (shape : Shape) : Element :=
  .group [.leaf shape { stroke := some .black, strokeWidth := some 2.0 }] .initial

theorem tokens_eq_iff_drawForm_eq_polyline :
    let line := strokedLine (.line ⟨0.0, 0.5⟩ ⟨1.25, -3.0⟩)
    let polyline := strokedLine (.polyline [⟨0.0, 0.5⟩, ⟨1.25, -3.0⟩])
    ∃ f f', Figure.ofElement line = .ok f ∧ Figure.ofElement polyline = .ok f' ∧
      (f = none ↔ line.Vanishes) ∧
      (f.map (·.code.tokens) = f'.map (·.code.tokens) ↔ line.drawForm = polyline.drawForm) := by
  intro line polyline
  have hline : line.leaves.findSome? Leaf.fault? = none := by decide +kernel
  have hpolyline : polyline.leaves.findSome? Leaf.fault? = none := by decide +kernel
  have h : Figure.ofElement line = .ok line.drawForm := by
    rw [Figure.ofElement_eq, hline]
    rfl
  have h' : Figure.ofElement polyline = .ok polyline.drawForm := by
    rw [Figure.ofElement_eq, hpolyline]
    rfl
  exact ⟨_, _, h, h', tokens_eq_iff_drawForm_eq h h'⟩

end IconCode

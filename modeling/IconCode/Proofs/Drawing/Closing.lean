import Mathlib.Data.List.Chain
import IconCode.Drawing.Builder

/-!
# Closing groups

The style of a group is resolved against its parent when the group is opened. Until it is closed
the style of its parent stays as it is, so resolving the group once more when it is attached changes
nothing.

* `Resolved.step`: every step of building keeps the open groups resolved.
* `Resolved.closeGroup?_append`: a resolved group is attached alike in both ways.
* `build_append_eq_build_push`: so whole drawings are built alike.
-/

namespace IconCode.Builder

/-! ## Steps -/

/-- A step of building a drawing: a group is opened that declares a style, an element is added whose
style is declared, or the innermost group is closed. -/
inductive Operation where
  | openGroup (own : Style)
  | add (e : Element)
  | close

/-- A step with a way to attach the groups that are closed; without an open group none is closed. -/
def step (attach : Builder → Element → Builder) (b : Builder) : Operation → Option Builder
  | .openGroup own => some (b.openGroup own)
  | .add e => some (b.append e)
  | .close => b.closeGroup? attach

/-- What the steps make of a document. -/
def build (attach : Builder → Element → Builder) (d : Document) (ops : List Operation) :
    Option Builder :=
  ops.foldlM (step attach) { root := d }

/-! ## Open groups -/

/-- What elements can be added to, the innermost first and the document last. -/
def layers (b : Builder) : List Layer := b.groups ++ [b.root.toLayer]

/-- The builder whose innermost group or document has one more child, and nothing else is changed:
neither the children before it, nor any style, nor the rest of the document. -/
structure Attached (b : Builder) (e : Element) (b' : Builder) : Prop where
  layers : ∃ parent outer, b.layers = parent :: outer ∧
    b'.layers = { parent with children := parent.children ++ [e] } :: outer
  root : b'.root = { b.root with toLayer := b'.root.toLayer }

theorem layers_eq_cons (b : Builder) : ∃ outer, b.layers = b.parent :: outer := by
  obtain ⟨root, groups⟩ := b
  cases groups with
  | nil => exact ⟨[], rfl⟩
  | cons g gs => exact ⟨gs ++ [root.toLayer], rfl⟩

theorem layers_onParent (f : Layer → Layer) (b : Builder) :
    (b.onParent f).layers = b.layers.modifyHead f := by
  obtain ⟨root, groups⟩ := b
  cases groups <;> rfl

theorem layers_openGroup (b : Builder) (own : Style) :
    (b.openGroup own).layers = { style := b.parent.resolve own } :: b.layers := rfl

theorem attached_push (b : Builder) (e : Element) : Attached b e (b.push e) := by
  obtain ⟨outer, houter⟩ := b.layers_eq_cons
  refine ⟨⟨b.parent, outer, houter, ?_⟩, ?_⟩
  · rw [push, layers_onParent, houter]
    rfl
  · obtain ⟨root, groups⟩ := b
    cases groups <;> rfl

theorem onParent_congr {b : Builder} {f f' : Layer → Layer} (h : f b.parent = f' b.parent) :
    b.onParent f = b.onParent f' := by
  obtain ⟨root, groups⟩ := b
  cases groups with
  | nil =>
    have hroot : f root.toLayer = f' root.toLayer := h
    simp only [onParent, hroot]
  | cons g gs =>
    have hgroup : f g = f' g := h
    simp only [onParent, hgroup]

/-- An element whose style is resolved is appended as it is. -/
theorem append_eq_push {b : Builder} {e : Element} (h : b.parent.resolve e.style = e.style) :
    b.append e = b.push e := by
  apply onParent_congr
  rw [Layer.append, h, Element.restyled_style]

/-! ## Resolved styles -/

/-- Whether the style of every open group is already what it is in its parent. -/
def Resolved (b : Builder) : Prop :=
  b.layers.IsChain fun group parent => parent.resolve group.style = group.style

namespace Resolved

theorem root (d : Document) : Resolved { root := d } := List.isChain_singleton _

theorem openGroup {b : Builder} (h : Resolved b) (own : Style) : Resolved (b.openGroup own) := by
  obtain ⟨outer, houter⟩ := b.layers_eq_cons
  rw [Resolved, layers_openGroup, houter, List.isChain_cons_cons, ← houter]
  exact ⟨Style.cascade_cascade _ _, h⟩

/-- What keeps the style of the parent keeps the groups resolved. -/
theorem onParent {b : Builder} (h : Resolved b) {f : Layer → Layer}
    (hf : ∀ l, (f l).style = l.style) : Resolved (b.onParent f) := by
  obtain ⟨outer, houter⟩ := b.layers_eq_cons
  rw [Resolved, houter] at h
  rw [Resolved, layers_onParent, houter, List.modifyHead_cons]
  cases outer with
  | nil => exact List.isChain_singleton _
  | cons parent outer =>
    rw [List.isChain_cons_cons] at h ⊢
    rwa [hf]

theorem of_cons {d : Document} {g : Layer} {gs : List Layer} (h : Resolved ⟨d, g :: gs⟩) :
    (parent ⟨d, gs⟩).resolve g.style = g.style ∧ Resolved ⟨d, gs⟩ := by
  obtain ⟨outer, houter⟩ := layers_eq_cons ⟨d, gs⟩
  change List.IsChain _ (g :: layers ⟨d, gs⟩) at h
  rw [houter, List.isChain_cons_cons, ← houter] at h
  exact h

theorem closeGroup?_append {b : Builder} (h : Resolved b) :
    b.closeGroup? append = b.closeGroup? push := by
  obtain ⟨d, groups⟩ := b
  cases groups with
  | nil => rfl
  | cons g gs => exact congrArg some (append_eq_push (e := g.toElement) h.of_cons.1)

theorem step {b b' : Builder} (h : Resolved b) {op : Operation}
    (hs : b.step push op = some b') : Resolved b' := by
  cases op with
  | openGroup own =>
    obtain rfl := Option.some.inj hs
    exact h.openGroup own
  | add e =>
    obtain rfl := Option.some.inj hs
    exact h.onParent fun l => rfl
  | close =>
    obtain ⟨d, groups⟩ := b
    cases groups with
    | nil => cases hs
    | cons g gs =>
      obtain rfl := Option.some.inj hs
      exact h.of_cons.2.onParent fun l => rfl

theorem step_append {b : Builder} (h : Resolved b) (op : Operation) :
    b.step append op = b.step push op := by
  cases op with
  | openGroup own => rfl
  | add e => rfl
  | close => exact h.closeGroup?_append

/-- From resolved groups on the steps do the same, and what they come to is resolved. -/
theorem foldlM_step {b : Builder} (h : Resolved b) (ops : List Operation) :
    ops.foldlM (Builder.step append) b = ops.foldlM (Builder.step push) b ∧
      ∀ b', ops.foldlM (Builder.step push) b = some b' → Resolved b' := by
  induction ops generalizing b with
  | nil =>
    refine ⟨rfl, ?_⟩
    rintro b' ⟨⟩
    exact h
  | cons op ops ih =>
    rw [List.foldlM_cons, List.foldlM_cons, h.step_append]
    cases hs : b.step push op with
    | none => exact ⟨rfl, fun b' hb => by cases hb⟩
    | some t => exact ih (h.step hs)

end Resolved

/-! ## Whole drawings -/

/-- A group whose style is resolved when it is opened can be attached as it is or resolved again:
the drawing is the same. Either way nothing else changes, neither the children that are there
already nor the group's own children nor any style. -/
theorem build_append_eq_build_push (d : Document) (ops : List Operation) :
    (∀ parent own : Style,
      Style.cascade parent (Style.cascade parent own) = Style.cascade parent own) ∧
    build append d ops = build push d ops ∧
    ∀ root g gs, build push d ops = some ⟨root, g :: gs⟩ →
      ∃ b, closeGroup? push ⟨root, g :: gs⟩ = some b ∧
        closeGroup? append ⟨root, g :: gs⟩ = some b ∧
        Attached ⟨root, gs⟩ (.group g.children g.style) b := by
  have hrun := (Resolved.root d).foldlM_step ops
  refine ⟨Style.cascade_cascade, hrun.1, ?_⟩
  intro root g gs hb
  exact ⟨_, rfl, (hrun.2 _ hb).closeGroup?_append, attached_push _ _⟩

end IconCode.Builder

import Mathlib.Data.List.Forall2
import IconCode.Proofs.Paint.Nearest
import IconCode.Proofs.Reader.Nesting

/-!
# Inherited styles

Every element of a document has been given its style once, under the style that its parent had been
given before. Each property of it has the value that the element declares, or else the innermost of
the groups around it, or else the root, and is initial if none of them declares it.

* `Resolved.inherits`, `Resolved.cascade`: what holds of an element and for what is inside it.
* `forall₂_inherits_readAll`: so it is with all elements that trees are read to.
* `run_style_eq_nearest`: so it is with all elements of a document.
-/

namespace IconCode

open Outcome (result_bind_ok_iff result_map_ok_iff)

namespace Element

mutual

/-- The styles of an element and of all elements inside it as they are painted, each with the style
of the parent before it. -/
def styles (parent : Style) : Element → List (Style × Style)
  | .leaf _ style => [(parent, style)]
  | .group children style => (parent, style) :: stylesAll style children

def stylesAll (parent : Style) : List Element → List (Style × Style)
  | [] => []
  | e :: es => e.styles parent ++ stylesAll parent es

end

theorem stylesAll_append (parent : Style) (es others : List Element) :
    stylesAll parent (es ++ others) = stylesAll parent es ++ stylesAll parent others := by
  induction es with
  | nil => rfl
  | cons e es ih => rw [List.cons_append, stylesAll, stylesAll, ih, List.append_assoc]

end Element

namespace Reader

open Markup (Attribute Event TagTree)

/-! ## Shapes -/

theorem ShapeName.eq_leaf_of_finish {σ : Type} {shape : σ → Shape} {x : Outcome (σ × Style)}
    {e : Element} (h : (read.finish shape x).result = .ok e) : ∃ s style, e = .leaf s style := by
  rw [read.finish, result_bind_ok_iff] at h
  obtain ⟨⟨geometry, style⟩, -, h⟩ := h
  cases h
  exact ⟨_, _, rfl⟩

theorem ShapeName.eq_leaf_of_read {name : ShapeName} {attributes : List Attribute} {e : Element}
    (h : (name.read attributes).result = .ok e) : ∃ s style, e = .leaf s style := by
  cases name <;> exact eq_leaf_of_finish h

/-! ## Declared styles -/

/-- What the attributes of an element declare by themselves. -/
def Subject.declared (x : Subject) : Outcome Style :=
  match x.owner with
  | .root => (·.style) <$> rootDocument x.attributes
  | .group => groupStyle x.attributes
  | .shape s => Element.style <$> s.read x.attributes

/-- Each of the elements declares the style in its place. -/
def Declare (elements : List Subject) (declared : List Style) : Prop :=
  List.Forall₂ (fun x own => x.declared.result = .ok own) elements declared

/-- What is around has been resolved to the style: nothing but initial values is missing. -/
def Resolved (around : List Subject) (parent : Style) : Prop :=
  ∃ declared, Declare around declared ∧ Style.initial.merge parent = .nearest declared

/-- A pair of styles, the parent's and an element's, in which the element's is inherited by the
first of these elements, of which each is inside the next. -/
def Inherits (p : Style × Style) (lineage : List Subject) : Prop :=
  ∃ own declared, Declare lineage (own :: declared) ∧ p.2 = .cascade p.1 own ∧
    p.2 = .nearest (own :: declared)

namespace Resolved

theorem root {x : Subject} {own : Style} (h : x.declared.result = .ok own) : Resolved [x] own :=
  ⟨[own], .cons h .nil, Style.initial_merge_eq_nearest_singleton own⟩

variable {around : List Subject} {parent : Style} (h : Resolved around parent) {x : Subject}
  {own : Style} (hx : x.declared.result = .ok own)

include h hx

theorem inherits : Inherits (parent, .cascade parent own) (x :: around) := by
  obtain ⟨declared, hd, hp⟩ := h
  exact ⟨own, declared, .cons hx hd, rfl, Style.cascade_eq_nearest hp own⟩

theorem cascade : Resolved (x :: around) (.cascade parent own) := by
  obtain ⟨declared, hd, hp⟩ := h
  refine ⟨own :: declared, .cons hx hd, ?_⟩
  rw [Style.cascade_eq_nearest hp own, Style.initial_merge_nearest]

end Resolved

end Reader

/-! ## Trees -/

open Reader

namespace Markup.TagTree

mutual

/-- For each element that a tree is drawn as, in order: the element itself, the groups around it
from the inside out, and what is around the tree. -/
def lineages (around : List Subject) : TagTree → List (List Subject)
  | .node name attributes children =>
    match Role.ofName name with
    | .skipped => []
    | .group =>
      (⟨.group, attributes⟩ :: around) :: lineagesAll (⟨.group, attributes⟩ :: around) children
    | .leaf shape => (⟨.shape shape, attributes⟩ :: around) :: lineagesAll around children
    | .title | .silent | .unknown => lineagesAll around children

def lineagesAll (around : List Subject) : List TagTree → List (List Subject)
  | [] => []
  | t :: ts => t.lineages around ++ lineagesAll around ts

end

/-- The lineages of the elements inside a root, all of which end in the root. -/
def rootLineages (t : TagTree) : List (List Subject) :=
  lineagesAll [⟨.root, t.attributes⟩] t.children

mutual

theorem forall₂_inherits_read {around : List Subject} {parent : Style}
    (h : Resolved around parent) : ∀ (t : TagTree) {elements : List Element},
      (t.read parent).result = .ok elements →
        List.Forall₂ Inherits (Element.stylesAll parent elements) (t.lineages around)
  | .node name attributes children, elements, hr => by
    rw [read] at hr
    rw [lineages]
    cases hrole : Role.ofName name with
    | group =>
      simp only [hrole, result_bind_ok_iff, Outcome.result_pure, Except.ok.injEq] at hr
      obtain ⟨own, hown, inside, hinside, rfl⟩ := hr
      have hx : (Subject.mk .group attributes).declared.result = .ok own := hown
      simp only [Element.stylesAll, Element.styles, List.append_nil]
      exact .cons (h.inherits hx) (forall₂_inherits_readAll (h.cascade hx) children hinside)
    | leaf shape =>
      simp only [hrole, result_bind_ok_iff, Outcome.result_pure, Except.ok.injEq] at hr
      obtain ⟨element, helement, others, hothers, rfl⟩ := hr
      have hx : (Subject.mk (.shape shape) attributes).declared.result = .ok element.style :=
        result_map_ok_iff.2 ⟨element, helement, rfl⟩
      -- What stands inside a shape is drawn after it and has the same around it.
      obtain ⟨geometry, style, rfl⟩ := ShapeName.eq_leaf_of_read helement
      exact .cons (h.inherits hx) (forall₂_inherits_readAll h children hothers)
    | title =>
      simp only [hrole] at hr
      exact forall₂_inherits_readAll h children hr
    | silent =>
      simp only [hrole] at hr
      exact forall₂_inherits_readAll h children hr
    | skipped =>
      simp only [hrole, result_bind_ok_iff, Outcome.result_pure, Except.ok.injEq] at hr
      obtain ⟨-, -, rfl⟩ := hr
      exact .nil
    | unknown =>
      simp only [hrole, result_bind_ok_iff] at hr
      obtain ⟨-, -, hr⟩ := hr
      exact forall₂_inherits_readAll h children hr

theorem forall₂_inherits_readAll {around : List Subject} {parent : Style}
    (h : Resolved around parent) : ∀ (ts : List TagTree) {elements : List Element},
      (readAll parent ts).result = .ok elements →
        List.Forall₂ Inherits (Element.stylesAll parent elements) (lineagesAll around ts)
  | [], elements, hr => by
    cases hr
    exact .nil
  | t :: ts, elements, hr => by
    simp only [readAll, result_bind_ok_iff, Outcome.result_pure, Except.ok.injEq] at hr
    obtain ⟨first, hfirst, others, hothers, rfl⟩ := hr
    rw [Element.stylesAll_append, lineagesAll]
    exact List.rel_append (forall₂_inherits_read h t hfirst) (forall₂_inherits_readAll h ts hothers)

end

theorem forall₂_inherits_document {t : TagTree} {d : Document}
    (h : t.document.result = .ok d) :
    (Subject.mk .root t.attributes).declared.result = .ok d.style ∧
      List.Forall₂ Inherits (Element.stylesAll d.style d.children) t.rootLineages := by
  simp only [document, result_bind_ok_iff, Outcome.result_pure, Except.ok.injEq] at h
  obtain ⟨r, hr, children, hchildren, rfl⟩ := h
  have hx : (Subject.mk .root t.attributes).declared.result = .ok r.style :=
    result_map_ok_iff.2 ⟨r, hr, rfl⟩
  exact ⟨hx, forall₂_inherits_readAll (.root hx) t.children hchildren⟩

end Markup.TagTree

/-! ## Documents -/

namespace Reader

open Markup (Attribute Event TagTree)

/-- The nearest declaration counts for every property of every element of a document, and every
element is resolved under the style that its parent has in the document. -/
theorem run_style_eq_nearest {events : List Event} {d : Document}
    (h : (run events).result = .ok d) :
    (∃ root, WritesRoot root events) ∧
      ∀ root, WritesRoot root events →
        (Subject.mk .root root.attributes).declared.result = .ok d.style ∧
          List.Forall₂ Inherits (Element.stylesAll d.style d.children) root.rootLineages := by
  refine ⟨writesRoot_of_run_ok h, ?_⟩
  intro root hroot
  have hd : root.document.result = .ok d.untitled := by
    rw [← foldlM_root_finish hroot, ← untitled_run]
    exact result_map_ok_iff.2 ⟨d, h, rfl⟩
  exact TagTree.forall₂_inherits_document (d := d.untitled) hd

/-- Two groups, an unknown element between them, and a shape inside a shape. -/
def nestedEvents : List Event :=
  [.tag ⟨.opening, "svg", [⟨"fill", "red"⟩]⟩, .tag ⟨.opening, "g", [⟨"stroke", "blue"⟩]⟩,
    .tag ⟨.opening, "blink", [⟨"fill", "lime"⟩]⟩, .tag ⟨.empty, "g", [⟨"fill", "none"⟩]⟩,
    .tag ⟨.opening, "rect", [⟨"fill-rule", "evenodd"⟩]⟩, .tag ⟨.empty, "circle", []⟩,
    .tag ⟨.closing, "rect", []⟩, .tag ⟨.closing, "blink", []⟩, .tag ⟨.closing, "g", []⟩,
    .tag ⟨.closing, "svg", []⟩]

theorem run_style_eq_nearest_nested :
    ∃ d, (run nestedEvents).result = .ok d ∧ (∃ root, WritesRoot root nestedEvents) ∧
      ∀ root, WritesRoot root nestedEvents →
        (Subject.mk .root root.attributes).declared.result = .ok d.style ∧
          List.Forall₂ Inherits (Element.stylesAll d.style d.children) root.rootLineages := by
  have hnone : (run nestedEvents).error? = none := by decide +kernel
  obtain ⟨d, hd⟩ := Outcome.error?_eq_none_iff.1 hnone
  exact ⟨d, hd, run_style_eq_nearest hd⟩

end Reader

end IconCode

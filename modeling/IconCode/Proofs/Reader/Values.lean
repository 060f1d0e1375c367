import IconCode.Proofs.Reader.Recursion

/-!
# Malformed values

Every attribute that is understood has a kind of value. Reading the attributes of an element fails
exactly if one of the values is not of its kind, with the error of the first such value. What else
the attributes say, and what was read before, has no influence on that.

* `error?_gatherAll`: the error of the attributes of one element.
* `error?_document`: the error of a document, read from its tree of elements.
-/

namespace IconCode

namespace Reader

open Markup (Attribute TagTree)

/-! ## Kinds of values -/

inductive ValueKind where
  | length
  | points
  | commands
  | viewBox
  | paint (p : Property)
  | block
deriving DecidableEq, Repr

/-- The error of a value that is not of the kind. -/
def ValueKind.fault? : ValueKind → List Char → Option ReadError
  | .length, value => (Outcome.ofExcept (Number.length value)).error?
  | .points, value => (Outcome.ofExcept (Reader.points value)).error?
  | .commands, value => (Outcome.ofExcept (Path.parse value)).error?
  | .viewBox, value => (Outcome.ofExcept (readViewBox value)).error?
  | .paint p, value => (Outcome.ofExcept (p.declare value)).error?
  | .block, value => (Style.ofBlock value).error?

theorem ValueKind.fault?_length (value : List Char) :
    ValueKind.length.fault? value = (Outcome.ofExcept (Number.length value)).error? := rfl

/-- The elements whose attributes are read. -/
inductive Owner where
  | root
  | group
  | shape (name : ShapeName)
deriving DecidableEq, Repr

namespace Owner

/-- The attributes of an element that are not about paint. -/
def kinds : Owner → List (String × ValueKind)
  | .root => [("width", .length), ("height", .length), ("viewBox", .viewBox)]
  | .group => []
  | .shape .rect =>
    [("x", .length), ("y", .length), ("width", .length), ("height", .length), ("rx", .length),
      ("ry", .length)]
  | .shape .circle => [("cx", .length), ("cy", .length), ("r", .length)]
  | .shape .ellipse => [("cx", .length), ("cy", .length), ("rx", .length), ("ry", .length)]
  | .shape .line => [("x1", .length), ("y1", .length), ("x2", .length), ("y2", .length)]
  | .shape .polygon => [("points", .points)]
  | .shape .polyline => [("points", .points)]
  | .shape .path => [("d", .commands)]

/-- The kind of an attribute about paint. -/
def paintKind? (name : String) : Option ValueKind :=
  match Property.ofName? name with
  | some p => some (.paint p)
  | none => if name = "style" then some .block else none

/-- The kind of an attribute that the element understands. -/
def kind? (o : Owner) (name : String) : Option ValueKind :=
  (o.kinds.lookup name).or (paintKind? name)

/-- The error of an attribute with a malformed value. -/
def fault? (o : Owner) (a : Attribute) : Option ReadError :=
  (o.kind? a.name).bind (·.fault? a.value.toList)

end Owner

/-! ## Attributes of one element -/

/-- The vocabulary takes values of the listed kinds, whatever was gathered before. -/
def Takes {σ : Type} (own : Vocabulary σ) (kinds : List (String × ValueKind)) : Prop :=
  ∀ (name : String) (state : σ) (value : List Char),
    (own name).map (fun set => (Outcome.ofExcept (set state value)).error?) =
      (kinds.lookup name).map (·.fault? value)

theorem error?_gather_paint {σ : Type} (element : String) {own : Vocabulary σ} (state : σ × Style)
    {a : Attribute} (hown : own a.name = none) :
    (gather element own state a).error? =
      (Owner.paintKind? a.name).bind (·.fault? a.value.toList) := by
  unfold gather declare? Owner.paintKind?
  simp only [hown]
  cases Property.ofName? a.name with
  | some p => simp only [Option.bind_some, ← map_eq_pure_bind, Outcome.error?_map]; rfl
  | none =>
    by_cases hs : a.name = "style"
    · simp only [hs, if_true, Option.bind_some, ← map_eq_pure_bind, Outcome.error?_map]
      rfl
    · simp only [hs, if_false, Option.bind_none]
      split <;> rfl

theorem error?_gather {σ : Type} {own : Vocabulary σ} {o : Owner} (h : Takes own o.kinds)
    (element : String) (state : σ × Style) (a : Attribute) :
    (gather element own state a).error? = o.fault? a := by
  have hset := h a.name state.1 a.value.toList
  unfold Owner.fault? Owner.kind?
  cases hown : own a.name with
  | some set =>
    cases hkind : o.kinds.lookup a.name with
    | none => simp [hown, hkind] at hset
    | some k =>
      simp only [hown, hkind, Option.map_some, Option.some.injEq] at hset
      simp only [gather, hown, Option.some_or, Option.bind_some, ← hset, ← map_eq_pure_bind,
        Outcome.error?_map]
  | none =>
    cases hkind : o.kinds.lookup a.name with
    | some k => simp [hown, hkind] at hset
    | none => rw [error?_gather_paint element state hown, Option.none_or]

theorem error?_gatherAll {σ : Type} {own : Vocabulary σ} {o : Owner} (h : Takes own o.kinds)
    (element : String) (start : σ) (attributes : List Attribute) :
    (gatherAll element own start attributes).error? = (ordered attributes).findSome? o.fault? :=
  Outcome.error?_foldlM (error?_gather h element) _ _

/-! ## Vocabularies -/

theorem lookup_cons_eq_ite (name key : String) (k : ValueKind) (kinds : List (String × ValueKind)) :
    ((key, k) :: kinds).lookup name = if name = key then some k else kinds.lookup name := by
  rw [List.lookup_cons]
  split <;> simp_all

theorem takes_rounded : Takes Rounded.vocabulary (Owner.shape .rect).kinds := by
  intro name state value
  unfold Rounded.vocabulary
  split <;> simp_all [Owner.kinds, lookup_cons_eq_ite, lengthOf, ValueKind.fault?_length]

theorem takes_circle : Takes Oval.circleVocabulary (Owner.shape .circle).kinds := by
  intro name state value
  unfold Oval.circleVocabulary
  split <;> simp_all [Owner.kinds, lookup_cons_eq_ite, lengthOf, ValueKind.fault?_length]

theorem takes_ellipse : Takes Oval.ellipseVocabulary (Owner.shape .ellipse).kinds := by
  intro name state value
  unfold Oval.ellipseVocabulary
  split <;> simp_all [Owner.kinds, lookup_cons_eq_ite, lengthOf, ValueKind.fault?_length]

theorem takes_segment : Takes Segment.vocabulary (Owner.shape .line).kinds := by
  intro name state value
  unfold Segment.vocabulary
  split <;> simp_all [Owner.kinds, lookup_cons_eq_ite, lengthOf, ValueKind.fault?_length]

theorem takes_points : Takes pointsVocabulary [("points", .points)] := by
  intro name state value
  unfold pointsVocabulary
  split <;> simp_all [lookup_cons_eq_ite, ValueKind.fault?]

theorem takes_path : Takes pathVocabulary (Owner.shape .path).kinds := by
  intro name state value
  unfold pathVocabulary
  split <;> simp_all [Owner.kinds, lookup_cons_eq_ite, ValueKind.fault?]

theorem takes_nothing : Takes noVocabulary Owner.group.kinds := fun _ _ _ => rfl

theorem takes_canvas : Takes Canvas.vocabulary Owner.root.kinds := by
  intro name state value
  unfold Canvas.vocabulary
  split <;> simp_all [Owner.kinds, lookup_cons_eq_ite, lengthOf, ValueKind.fault?]

/-! ## Elements -/

/-- An element whose attributes are read. -/
structure Subject where
  owner : Owner
  attributes : List Attribute

/-- The error of the first attribute, by name, with a malformed value. -/
def Subject.fault? (x : Subject) : Option ReadError :=
  (ordered x.attributes).findSome? x.owner.fault?

theorem error?_rootDocument (attributes : List Attribute) :
    (rootDocument attributes).error? = (Subject.mk .root attributes).fault? := by
  rw [rootDocument, ← map_eq_pure_bind, Outcome.error?_map]
  exact error?_gatherAll takes_canvas _ _ _

theorem error?_groupStyle (attributes : List Attribute) :
    (groupStyle attributes).error? = (Subject.mk .group attributes).fault? := by
  rw [groupStyle, ← map_eq_pure_bind, Outcome.error?_map]
  exact error?_gatherAll takes_nothing _ _ _

theorem error?_finish {σ : Type} (shape : σ → Shape) (x : Outcome (σ × Style)) :
    (ShapeName.read.finish shape x).error? = x.error? := by
  rw [ShapeName.read.finish, ← map_eq_pure_bind, Outcome.error?_map]

theorem error?_read (name : ShapeName) (attributes : List Attribute) :
    (name.read attributes).error? = (Subject.mk (.shape name) attributes).fault? := by
  cases name with
  | rect => exact (error?_finish _ _).trans (error?_gatherAll takes_rounded _ _ _)
  | circle => exact (error?_finish _ _).trans (error?_gatherAll takes_circle _ _ _)
  | ellipse => exact (error?_finish _ _).trans (error?_gatherAll takes_ellipse _ _ _)
  | line => exact (error?_finish _ _).trans (error?_gatherAll takes_segment _ _ _)
  | polygon =>
    exact (error?_finish _ _).trans (error?_gatherAll (o := .shape .polygon) takes_points _ _ _)
  | polyline =>
    exact (error?_finish _ _).trans (error?_gatherAll (o := .shape .polyline) takes_points _ _ _)
  | path => exact (error?_finish _ _).trans (error?_gatherAll takes_path _ _ _)

end Reader

/-! ## Trees -/

open Reader
open Outcome (error?_bind error?_map)

/-- Which attributes an element inside the root has read, by its name. -/
def Reader.Owner.ofName? (name : String) : Option Owner :=
  match Role.ofName name with
  | .group => some .group
  | .leaf s => some (.shape s)
  | .title | .silent | .skipped | .unknown => none

namespace Markup.TagTree

mutual

/-- The elements of a tree whose attributes are read, in their order: those that are recognized and
stand outside every skipped element. -/
def subjects : TagTree → List Subject
  | .node name attributes children =>
    if Role.ofName name = .skipped then []
    else (Owner.ofName? name).toList.map (Subject.mk · attributes) ++ subjectsAll children

def subjectsAll : List TagTree → List Subject
  | [] => []
  | t :: ts => t.subjects ++ subjectsAll ts

end

/-- The root and the elements inside it whose attributes are read. -/
def rootSubjects (t : TagTree) : List Subject := ⟨.root, t.attributes⟩ :: subjectsAll t.children

mutual

theorem error?_read (parent : Style) :
    ∀ t : TagTree, (t.read parent).error? = t.subjects.findSome? Subject.fault?
  | .node name attributes children => by
    rw [read, subjects, Owner.ofName?]
    cases Role.ofName name with
    | group =>
      have hinside : ∀ own, (do
          let elements ← readAll (.cascade parent own) children
          pure [Element.group elements (.cascade parent own)]).error? =
            (subjectsAll children).findSome? Subject.fault? := by
        intro own
        rw [← map_eq_pure_bind, error?_map, error?_readAll]
      rw [error?_bind hinside, error?_groupStyle]
      exact (findSome?_cons_eq_or _ _ _).symm
    | leaf shape =>
      have hinside : ∀ element : Element, (do
          let elements ← readAll parent children
          pure (element.restyled (.cascade parent element.style) :: elements)).error? =
            (subjectsAll children).findSome? Subject.fault? := by
        intro element
        rw [← map_eq_pure_bind, error?_map, error?_readAll]
      rw [error?_bind hinside, Reader.error?_read]
      exact (findSome?_cons_eq_or _ _ _).symm
    | title => exact error?_readAll parent children
    | silent => exact error?_readAll parent children
    | skipped => rfl
    | unknown => exact (error?_bind fun _ => error?_readAll parent children).trans rfl

theorem error?_readAll (parent : Style) :
    ∀ ts : List TagTree, (readAll parent ts).error? = (subjectsAll ts).findSome? Subject.fault?
  | [] => rfl
  | t :: ts => by
    have hrest : ∀ elements, (do
        let others ← readAll parent ts
        pure (elements ++ others)).error? = (subjectsAll ts).findSome? Subject.fault? := by
      intro elements
      rw [← map_eq_pure_bind, error?_map, error?_readAll parent ts]
    rw [readAll, subjectsAll, List.findSome?_append, error?_bind hrest, error?_read parent t]

end

theorem error?_document (t : TagTree) :
    t.document.error? = t.rootSubjects.findSome? Subject.fault? := by
  have hinside : ∀ d : Document, (do
      let children ← readAll d.style t.children
      pure { d with children }).error? = (subjectsAll t.children).findSome? Subject.fault? := by
    intro d
    rw [← map_eq_pure_bind, error?_map, error?_readAll]
  rw [document, rootSubjects, error?_bind hinside, error?_rootDocument, findSome?_cons_eq_or]

end Markup.TagTree

end IconCode

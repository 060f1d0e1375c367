import IconCode.Proofs.Reader.Frames

/-!
# Reading trees

Events are read one by one with a stack of open elements. The same drawing comes out of a recursion
over the tree of elements that the events write.

* `advance_written`: inside an open element, the events of trees attach what the trees are read to.
* `run_untitled_eq_document`: the document of a run is the document of the tree.
-/

namespace IconCode

open Reader

/-! ## Trees -/

namespace Markup.TagTree

mutual

/-- The elements that a tree is read to under a parent of a style. Of a skipped element only its
name counts, and whatever is inside an element that is no group goes to the same parent. -/
def read (parent : Style) : TagTree → Outcome (List Element)
  | .node name attributes children =>
    match Role.ofName name with
    | .skipped => do
      Outcome.report (.skippedSubtree name)
      pure []
    | .group => do
      let own ← groupStyle attributes
      let style := Style.cascade parent own
      let elements ← readAll style children
      pure [.group elements style]
    | .leaf shape => do
      let element ← shape.read attributes
      let elements ← readAll parent children
      pure (element.restyled (.cascade parent element.style) :: elements)
    | .title | .silent => readAll parent children
    | .unknown => do
      Outcome.report (.unknownElement name)
      readAll parent children

/-- The elements of several trees in their order. -/
def readAll (parent : Style) : List TagTree → Outcome (List Element)
  | [] => pure []
  | t :: ts => do
    let elements ← t.read parent
    let others ← readAll parent ts
    pure (elements ++ others)

end

/-- The document that a tree is read to as the root. -/
def document (t : TagTree) : Outcome Document := do
  let d ← rootDocument t.attributes
  let children ← readAll d.style t.children
  pure { d with children }

end Markup.TagTree

namespace Reader

open Markup (Attribute Event Tag TagKind TagTree Written)

/-! ## Skipped elements -/

theorem enter_skipped {s : State} (hs : isSkipping s.frames = true) (name : String)
    (attributes : List Attribute) : s.enter name attributes = pure (s, .skipped) := by
  have hne : s.frames.isEmpty = false := by
    simpa using ne_nil_of_isSkipping hs
  simp [State.enter, hne, hs]

theorem isSkipping_push_skipped (s : State) (name : String) :
    isSkipping (s.push ⟨name, .skipped⟩).frames = true := by
  simp [State.push, isSkipping]

/-- A frame of skipped content is opened and closed again around what leaves the state alone. -/
theorem foldlM_skipped_element {inside : List Event}
    (hi : ∀ s : State, isSkipping s.frames = true → inside.foldlM State.advance s = pure s)
    {s : State} (hs : isSkipping s.frames = true) (name : String)
    (attributes ignored : List Attribute) (events : List Event) :
    (.tag ⟨.opening, name, attributes⟩ ::
        (inside ++ .tag ⟨.closing, name, ignored⟩ :: events)).foldlM State.advance s =
      events.foldlM State.advance s := by
  rw [List.foldlM_cons, State.advance_opening, enter_skipped hs, map_pure, pure_bind,
    List.foldlM_append, hi _ (isSkipping_push_skipped s name), pure_bind, List.foldlM_cons,
    State.advance_closing_push]
  rfl

theorem foldlM_skipped {trees : List TagTree} {events : List Event} (h : Written trees events)
    (s : State) (hs : isSkipping s.frames = true) : events.foldlM State.advance s = pure s := by
  induction h generalizing s with
  | nil => rfl
  | aside ha _ ih => rw [List.foldlM_cons, State.advance_aside ha, pure_bind, ih s hs]
  | empty _ ih =>
    rw [State.foldlM_advance_empty s _ _ [], foldlM_skipped_element (fun _ _ => rfl) hs, ih s hs]
  | element _ _ ihc ih => rw [foldlM_skipped_element ihc hs, ih s hs]

/-! ## Elements inside the root -/

/-- Reading the events attaches what the trees are read to, wherever something is open and nothing
is skipped. -/
def Attaches (trees : List TagTree) (events : List Event) : Prop :=
  ∀ (s : State) (layer : Layer), parent? s.frames = some layer → isSkipping s.frames = false →
    events.foldlM State.advance s = s.attach <$> TagTree.readAll layer.style trees

theorem enter_inside {s : State} {layer : Layer} (hp : parent? s.frames = some layer)
    (hs : isSkipping s.frames = false) (name : String) (attributes : List Attribute) :
    s.enter name attributes = s.openInside name attributes := by
  have hne : s.frames.isEmpty = false := by
    simpa using ne_nil_of_parent? hp
  simp [State.enter, hne, hs]

theorem requireParent_eq {frames : List Frame} {layer : Layer} (hp : parent? frames = some layer) :
    requireParent frames = pure layer := by
  simp [requireParent, hp]

/-- Content that stands for no group of its own. -/
def Content.isPlain : Content → Bool
  | .title | .passive => true
  | .document _ | .group _ | .skipped => false

section Inside

variable {children : List TagTree} {inside : List Event} (h : Attaches children inside) {s : State}
  {layer : Layer} (hp : parent? s.frames = some layer) (hs : isSkipping s.frames = false)
  (name : String) (ignored : List Attribute)

include h hp hs

theorem foldlM_plain {c : Content} (hc : c.isPlain = true) :
    (inside ++ [Event.tag ⟨.closing, name, ignored⟩]).foldlM State.advance (s.push ⟨name, c⟩) =
      s.attach <$> TagTree.readAll layer.style children := by
  have hparent : parent? (s.push ⟨name, c⟩).frames = some layer := by
    cases c <;> first | exact hp | cases hc
  have hskip : isSkipping (s.push ⟨name, c⟩).frames = false := by
    cases c <;> first | exact hs | cases hc
  have hattach : ∀ elements, (s.push ⟨name, c⟩).attach elements =
      (s.attach elements).push ⟨name, c⟩ := by
    intro elements
    cases c <;> first | rfl | cases hc
  have hleave : ∀ s' : State, s'.leave c = pure s' := by
    intro s'
    cases c <;> first | rfl | cases hc
  rw [List.foldlM_append, h _ _ hparent hskip, bind_map_left]
  simp only [List.foldlM_cons, List.foldlM_nil, hattach, State.advance_closing_push, hleave,
    pure_bind, map_eq_pure_bind]

theorem foldlM_group (style : Style) :
    (inside ++ [Event.tag ⟨.closing, name, ignored⟩]).foldlM State.advance
        (s.push ⟨name, .group { style }⟩) =
      (fun elements => s.attach [.group elements style]) <$> TagTree.readAll style children := by
  have hattach : ∀ elements, (s.push ⟨name, .group { style }⟩).attach elements =
      s.push ⟨name, .group { children := elements, style }⟩ := by
    intro elements
    simp [State.attach, State.push, onParent, Layer.pushAll]
  have hskip : isSkipping (s.push ⟨name, .group { style }⟩).frames = false := hs
  rw [List.foldlM_append, h _ { style } rfl hskip, bind_map_left]
  simp only [List.foldlM_cons, List.foldlM_nil, hattach, State.advance_closing_push, State.leave,
    requireParent_eq hp, pure_bind, bind_pure, map_eq_pure_bind]
  rfl

theorem foldlM_leaf (element : Element) :
    (inside ++ [Event.tag ⟨.closing, name, ignored⟩]).foldlM State.advance
        (State.push { s with frames := onParent (·.append element) s.frames } ⟨name, .passive⟩) =
      (fun elements => s.attach (element.restyled (.cascade layer.style element.style) :: elements))
        <$> TagTree.readAll layer.style children := by
  let resolved := element.restyled (.cascade layer.style element.style)
  have happend : { s with frames := onParent (·.append element) s.frames } =
      s.attach [resolved] := by
    rw [State.attach, onParent_congr hp]
    rfl
  have hparent := State.parent?_attach hp [resolved]
  have hskip := (State.isSkipping_attach s [resolved]).trans hs
  rw [happend, foldlM_plain h hparent hskip name ignored rfl, Layer.style_pushAll]
  congr 1
  funext elements
  exact State.attach_attach s [resolved] elements

/-- One case for each role that an element can have. -/
theorem foldlM_element (hw : Written children inside) (attributes : List Attribute) :
    (Event.tag ⟨.opening, name, attributes⟩ ::
        (inside ++ [.tag ⟨.closing, name, ignored⟩])).foldlM State.advance s =
      s.attach <$> (TagTree.node name attributes children).read layer.style := by
  rw [List.foldlM_cons, State.advance_opening, enter_inside hp hs, bind_map_left, TagTree.read]
  unfold State.openInside
  cases Role.ofName name with
  | group =>
    simp only [requireParent_eq hp, bind_assoc, pure_bind, map_bind, map_pure]
    congr
    funext own
    rw [foldlM_group h hp hs name ignored, map_eq_pure_bind]
    rfl
  | leaf shape =>
    simp only [requireParent_eq hp, bind_assoc, pure_bind, foldlM_leaf h hp hs name ignored,
      map_eq_pure_bind]
  | title => rw [pure_bind, foldlM_plain h hp hs name ignored (c := .title) rfl]
  | silent => rw [pure_bind, foldlM_plain h hp hs name ignored (c := .passive) rfl]
  | skipped =>
    simp only [bind_assoc, pure_bind, map_bind, map_pure, List.foldlM_append,
      foldlM_skipped hw _ (isSkipping_push_skipped s name), List.foldlM_cons, List.foldlM_nil,
      State.advance_closing_push, State.leave, State.attach_nil]
  | unknown =>
    simp only [bind_assoc, pure_bind, map_bind,
      foldlM_plain h hp hs name ignored (c := .passive) rfl]

end Inside

theorem attaches_cons {children trees : List TagTree} {inside events : List Event}
    (hw : Written children inside) (hc : Attaches children inside) (ht : Attaches trees events)
    (name : String) (attributes ignored : List Attribute) :
    Attaches (.node name attributes children :: trees)
      (.tag ⟨.opening, name, attributes⟩ ::
        (inside ++ .tag ⟨.closing, name, ignored⟩ :: events)) := by
  intro s layer hp hs
  have hsplit : (Event.tag ⟨.opening, name, attributes⟩ ::
      (inside ++ .tag ⟨.closing, name, ignored⟩ :: events)) =
      (.tag ⟨.opening, name, attributes⟩ :: (inside ++ [.tag ⟨.closing, name, ignored⟩])) ++
        events := by
    simp
  have hrest : ∀ elements, events.foldlM State.advance (s.attach elements) =
      (s.attach elements).attach <$> TagTree.readAll layer.style trees := by
    intro elements
    have hskip := (State.isSkipping_attach s elements).trans hs
    exact ht _ (layer.pushAll elements) (State.parent?_attach hp elements) hskip
  rw [hsplit, List.foldlM_append, foldlM_element hc hp hs name ignored hw attributes, bind_map_left,
    TagTree.readAll]
  simp only [hrest, map_eq_pure_bind, bind_assoc, pure_bind, State.attach_attach]

theorem advance_written {trees : List TagTree} {events : List Event} (h : Written trees events) :
    Attaches trees events := by
  induction h with
  | nil =>
    intro s layer hp hs
    simp [TagTree.readAll]
  | aside ha _ ih =>
    intro s layer hp hs
    rw [List.foldlM_cons, State.advance_aside ha, pure_bind, ih s layer hp hs]
  | empty _ ih =>
    intro s layer hp hs
    rw [State.foldlM_advance_empty s _ _ []]
    exact attaches_cons .nil (fun s' _ _ _ => by simp [TagTree.readAll]) ih _ _ [] s layer hp hs
  | element hw _ ihc ih => exact attaches_cons hw ihc ih _ _ _

/-! ## The root -/

theorem foldlM_asides {events : List Event} (h : Written [] events) (s : State) :
    events.foldlM State.advance s = pure s := by
  generalize ht : [] = trees at h
  induction h with
  | nil => rfl
  | aside ha _ ih => rw [List.foldlM_cons, State.advance_aside ha, pure_bind, ih ht]
  | empty _ _ => cases ht
  | element _ _ _ _ => cases ht

/-- The root element of markup, with whatever is written around it. -/
def WritesRoot (root : TagTree) (events : List Event) : Prop :=
  root.name = "svg" ∧ Written [root] events

/-- The root as an open element with nothing around it. -/
def State.inRoot (d : Document) : State := State.push {} ⟨"svg", .document d⟩

theorem advance_opening_root (attributes : List Attribute) :
    State.advance {} (.tag ⟨.opening, "svg", attributes⟩) =
      State.inRoot <$> rootDocument attributes := by
  have henter : State.enter {} "svg" attributes =
      (fun d => (({} : State), Content.document d)) <$> rootDocument attributes := by
    simp [State.enter, State.openRoot]
  rw [State.advance_opening, henter, ← LawfulFunctor.comp_map]
  rfl

theorem advance_closing_root (d : Document) (ignored : List Attribute) :
    (State.inRoot d).advance (.tag ⟨.closing, "svg", ignored⟩) = pure { finished := some d } :=
  State.advance_closing_push {} "svg" ignored (.document d)

theorem foldlM_inRoot {children : List TagTree} {inside : List Event} (hw : Written children inside)
    (d : Document) (ignored : List Attribute) :
    (inside ++ [Event.tag ⟨.closing, "svg", ignored⟩]).foldlM State.advance (State.inRoot d) =
      (fun elements => { finished := some { d with children := d.children ++ elements } }) <$>
        TagTree.readAll d.style children := by
  have hattach : ∀ elements, (State.inRoot d).attach elements =
      State.inRoot { d with children := d.children ++ elements } := fun _ => rfl
  rw [List.foldlM_append, advance_written hw _ d.toLayer rfl rfl, bind_map_left]
  simp only [List.foldlM_cons, List.foldlM_nil, hattach, advance_closing_root, pure_bind,
    map_eq_pure_bind]

theorem foldlM_root_element {children : List TagTree} {inside events : List Event}
    (hw : Written children inside) (hr : Written [] events) (attributes ignored : List Attribute) :
    (Event.tag ⟨.opening, "svg", attributes⟩ ::
        (inside ++ .tag ⟨.closing, "svg", ignored⟩ :: events)).foldlM State.advance {} =
      (fun d => { finished := some d }) <$> (TagTree.node "svg" attributes children).document := by
  have hsplit : inside ++ Event.tag ⟨.closing, "svg", ignored⟩ :: events =
      (inside ++ [.tag ⟨.closing, "svg", ignored⟩]) ++ events := by
    simp
  have hinside : ∀ d : Document, (inside ++ Event.tag ⟨.closing, "svg", ignored⟩ :: events).foldlM
      State.advance (State.inRoot d) =
        (fun elements => { finished := some { d with children := d.children ++ elements } }) <$>
          TagTree.readAll d.style children := by
    intro d
    rw [hsplit, List.foldlM_append, foldlM_inRoot hw d ignored, bind_map_left, map_eq_pure_bind]
    simp only [foldlM_asides hr]
  rw [List.foldlM_cons, advance_opening_root, bind_map_left]
  simp only [hinside]
  simp [TagTree.document, rootDocument, TagTree.attributes, TagTree.children]

theorem foldlM_root {root : TagTree} {events : List Event} (h : WritesRoot root events) :
    events.foldlM State.advance {} = (fun d => { finished := some d }) <$> root.document := by
  obtain ⟨hname, hw⟩ := h
  generalize ht : [root] = trees at hw
  induction hw with
  | nil => cases ht
  | aside ha _ ih => rw [List.foldlM_cons, State.advance_aside ha, pure_bind, ih ht]
  | empty hr _ =>
    cases ht
    cases hname
    rw [State.foldlM_advance_empty _ _ _ [], foldlM_root_element .nil hr]
  | element hc hr _ _ =>
    cases ht
    cases hname
    exact foldlM_root_element hc hr _ _

theorem foldlM_root_finish {root : TagTree} {events : List Event} (h : WritesRoot root events) :
    events.foldlM State.advance {} >>= State.finish = root.document := by
  rw [foldlM_root h, bind_map_left]
  exact bind_pure _

/-- Apart from its title, which is a matter of the text, a document is what the recursion over its
tree gives, with the same diagnostics or the same error. -/
theorem run_untitled_eq_document {root : TagTree} {events : List Event}
    (h : WritesRoot root events) :
    Document.untitled <$> run events = root.document :=
  (untitled_run events).trans (foldlM_root_finish h)

/-- A group with a shape inside a shape and a malformed shape inside a skipped element. -/
def sampleGroup : TagTree :=
  .node "g" [⟨"fill", "red"⟩]
    [.node "rect" [⟨"width", "2"⟩] [.node "circle" [] []],
      .node "defs" [] [.node "rect" [⟨"x", "wide"⟩] []]]

def sampleRoot : TagTree := .node "svg" [] [.node "blink" [] [], sampleGroup]

def sampleEvents : List Event :=
  .declaration :: .tag ⟨.opening, "svg", []⟩ ::
    (.text "\n" :: .tag ⟨.empty, "blink", []⟩ :: sampleGroup.events ++
      [.tag ⟨.closing, "svg", []⟩])

theorem writesRoot_sample : WritesRoot sampleRoot sampleEvents := by
  have hgroup := Markup.written_events sampleGroup
  exact ⟨rfl, .aside rfl (.single "svg" [] [] (.aside rfl (.empty hgroup)))⟩

theorem run_untitled_eq_document_sample :
    WritesRoot sampleRoot sampleEvents ∧
      Document.untitled <$> run sampleEvents = sampleRoot.document :=
  ⟨writesRoot_sample, run_untitled_eq_document writesRoot_sample⟩

end Reader

end IconCode

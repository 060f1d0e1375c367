import IconCode.Proofs.Markup.Tree
import IconCode.Proofs.Reader.Title

/-!
# The parent among the open elements

Elements are attached to the innermost open group or document, however many other elements are open
inside it.

* `onParent_onParent`: two changes to the parent are one change.
* `foldlM_advance_empty`: an empty tag is read like an opening tag with its closing tag.
-/

namespace IconCode

namespace Layer

/-- The layer with more children, as they are. -/
def pushAll (l : Layer) (elements : List Element) : Layer :=
  { l with children := l.children ++ elements }

@[simp] theorem pushAll_nil (l : Layer) : l.pushAll [] = l := by
  simp [pushAll]

@[simp] theorem style_pushAll (l : Layer) (elements : List Element) :
    (l.pushAll elements).style = l.style := rfl

@[simp] theorem pushAll_pushAll (l : Layer) (xs ys : List Element) :
    (l.pushAll xs).pushAll ys = l.pushAll (xs ++ ys) := by
  simp [pushAll]

end Layer

namespace Reader

open Markup (Attribute Event Tag TagKind)

/-! ## Changes to the parent -/

theorem onParent_self (frames : List Frame) : onParent (fun l => l) frames = frames := by
  induction frames with
  | nil => rfl
  | cons f fs ih =>
    obtain ⟨name, content⟩ := f
    cases content <;> simp [onParent, ih]

theorem onParent_onParent (change change' : Layer → Layer) (frames : List Frame) :
    onParent change' (onParent change frames) = onParent (fun l => change' (change l)) frames := by
  induction frames with
  | nil => rfl
  | cons f fs ih =>
    obtain ⟨name, content⟩ := f
    cases content <;> simp [onParent, ih]

theorem onParent_congr {change change' : Layer → Layer} {frames : List Frame} {layer : Layer}
    (hp : parent? frames = some layer) (h : change layer = change' layer) :
    onParent change frames = onParent change' frames := by
  induction frames with
  | nil => rfl
  | cons f fs ih =>
    obtain ⟨name, content⟩ := f
    cases content <;> simp_all [parent?, onParent]

theorem isSkipping_onParent (change : Layer → Layer) (frames : List Frame) :
    isSkipping (onParent change frames) = isSkipping frames := by
  induction frames with
  | nil => rfl
  | cons f fs ih =>
    obtain ⟨name, content⟩ := f
    simp only [isSkipping] at ih
    cases content <;> simp [isSkipping, onParent, ih]

theorem ne_nil_of_parent? {frames : List Frame} {layer : Layer} (h : parent? frames = some layer) :
    frames ≠ [] := by
  rintro rfl
  cases h

theorem ne_nil_of_isSkipping {frames : List Frame} (h : isSkipping frames = true) :
    frames ≠ [] := by
  rintro rfl
  cases h

namespace State

/-! ## Attaching elements -/

/-- The state with more elements in the innermost group or document. -/
def attach (s : State) (elements : List Element) : State :=
  { s with frames := onParent (·.pushAll elements) s.frames }

/-- The state with one more open element. -/
def push (s : State) (f : Frame) : State := { s with frames := f :: s.frames }

@[simp] theorem attach_nil (s : State) : s.attach [] = s := by
  simp [attach, onParent_self]

@[simp] theorem attach_attach (s : State) (xs ys : List Element) :
    (s.attach xs).attach ys = s.attach (xs ++ ys) := by
  simp [attach, onParent_onParent]

theorem parent?_attach {s : State} {layer : Layer} (h : parent? s.frames = some layer)
    (elements : List Element) :
    parent? (s.attach elements).frames = some (layer.pushAll elements) := by
  rw [attach, parent?_onParent, h]
  rfl

theorem isSkipping_attach (s : State) (elements : List Element) :
    isSkipping (s.attach elements).frames = isSkipping s.frames :=
  isSkipping_onParent _ _

/-! ## Tags -/

theorem advance_opening (s : State) (name : String) (attributes : List Attribute) :
    s.advance (.tag ⟨.opening, name, attributes⟩) =
      (fun p => p.1.push ⟨name, p.2⟩) <$> s.enter name attributes := by
  rw [map_eq_pure_bind]
  rfl

/-- A closing tag takes away the element that it belongs to. -/
theorem advance_closing_push (s : State) (name : String) (ignored : List Attribute) (c : Content) :
    (s.push ⟨name, c⟩).advance (.tag ⟨.closing, name, ignored⟩) = s.leave c := by
  simp [advance, step, close, push]

theorem advance_empty (s : State) (name : String) (attributes ignored : List Attribute) :
    s.advance (.tag ⟨.empty, name, attributes⟩) =
      s.advance (.tag ⟨.opening, name, attributes⟩) >>= fun s' =>
        s'.advance (.tag ⟨.closing, name, ignored⟩) := by
  rw [advance_opening, bind_map_left]
  simp only [advance_closing_push]
  rfl

/-- In a run, too, an empty tag counts as both tags of an element. -/
theorem foldlM_advance_empty (s : State) (name : String) (attributes ignored : List Attribute)
    (events : List Event) :
    (.tag ⟨.empty, name, attributes⟩ :: events).foldlM advance s =
      (.tag ⟨.opening, name, attributes⟩ ::
        ([] ++ .tag ⟨.closing, name, ignored⟩ :: events)).foldlM advance s := by
  simp only [List.nil_append, List.foldlM_cons, advance_empty s name attributes ignored, bind_assoc]

theorem advance_aside {e : Event} (h : e.isAside = true) (s : State) : s.advance e = pure s := by
  cases e with
  | text text => rfl
  | comment => rfl
  | declaration => rfl
  | instruction => rfl
  | tag t => cases h
  | malformed fault position => cases h

end State

end Reader

end IconCode

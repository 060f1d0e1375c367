import IconCode.Markup.Entity
import IconCode.Reader.Shapes
import IconCode.Text.Blank

/-!
# Reading events

The events of markup build a document from the outside in. What is open is kept with the element
that each tag opened; a shape is attached when its tag opens, a group when it is closed.

* `parent?_onParent`: a change to the parent is a change to what the parent is.
-/

namespace IconCode.Reader

open Markup (Attribute Event Tag TagKind)

/-! ## Elements by name -/

/-- What the reader does with an element. -/
inductive Role where
  | group
  | leaf (shape : ShapeName)
  | title
  /-- Says nothing about the picture. -/
  | silent
  /-- Holds what is not painted where it stands. -/
  | skipped
  | unknown
deriving DecidableEq, Repr

def silentNames : List String := ["desc", "metadata"]

def skippedNames : List String :=
  ["defs", "clipPath", "mask", "symbol", "pattern", "marker", "linearGradient", "radialGradient",
    "filter", "text", "svg"]

def Role.ofName (name : String) : Role :=
  if name = "g" then .group
  else
    match ShapeName.ofText? name with
    | some shape => .leaf shape
    | none =>
      if name = "title" then .title
      else if silentNames.contains name then .silent
      else if skippedNames.contains name then .skipped
      else .unknown

/-! ## Open elements -/

/-- What an open tag has become. -/
inductive Content where
  | document (document : Document)
  | group (layer : Layer)
  | title
  /-- A shape, or an element that adds nothing of its own. -/
  | passive
  /-- Within a skipped element. -/
  | skipped

structure Frame where
  name : String
  content : Content

/-- The open elements, the innermost first, and the root once it is closed. -/
structure State where
  frames : List Frame := []
  finished : Option Document := none

/-- The innermost open group or document. -/
def parent? : List Frame → Option Layer
  | [] => none
  | f :: fs =>
    match f.content with
    | .document d => some d.toLayer
    | .group l => some l
    | _ => parent? fs

/-- The open elements with a change to the innermost group or document. -/
def onParent (change : Layer → Layer) : List Frame → List Frame
  | [] => []
  | f :: fs =>
    match f.content with
    | .document d => { f with content := .document { d with toLayer := change d.toLayer } } :: fs
    | .group l => { f with content := .group (change l) } :: fs
    | _ => f :: onParent change fs

theorem parent?_onParent (change : Layer → Layer) (frames : List Frame) :
    parent? (onParent change frames) = (parent? frames).map change := by
  induction frames with
  | nil => rfl
  | cons f fs ih =>
    obtain ⟨name, content⟩ := f
    cases content <;> simp [parent?, onParent, ih]

/-- The innermost group or document, which is there once a root is open. -/
def requireParent (frames : List Frame) : Outcome Layer :=
  match parent? frames with
  | some l => pure l
  | none => Outcome.fail (.invalidMarkup .outsideRoot)

def isSkipping (frames : List Frame) : Bool :=
  frames.any fun f => match f.content with
    | .skipped => true
    | _ => false

namespace State

/-! ## Steps -/

/-- The first tag has to be the root's, and nothing may come after the root. -/
def openRoot (s : State) (name : String) (attributes : List Attribute) : Outcome Content :=
  if s.finished.isSome then Outcome.fail (.invalidMarkup (.afterRoot name))
  else if name = "svg" then do
    let document ← rootDocument attributes
    pure (.document document)
  else Outcome.fail (.invalidMarkup (.wrongRoot name))

/-- The content of an element inside the root, and the state with the shape that the element may
be. -/
def openInside (s : State) (name : String) (attributes : List Attribute) :
    Outcome (State × Content) :=
  match Role.ofName name with
  | .group => do
    let own ← groupStyle attributes
    let parent ← requireParent s.frames
    pure (s, .group { style := parent.resolve own })
  | .leaf shape => do
    let element ← shape.read attributes
    let _ ← requireParent s.frames
    pure ({ s with frames := onParent (·.append element) s.frames }, .passive)
  | .title => pure (s, .title)
  | .silent => pure (s, .passive)
  | .skipped => do
    Outcome.report (.skippedSubtree name)
    pure (s, .skipped)
  | .unknown => do
    Outcome.report (.unknownElement name)
    pure (s, .passive)

/-- What an opening tag becomes. Nothing inside a skipped element is looked at. -/
def enter (s : State) (name : String) (attributes : List Attribute) : Outcome (State × Content) :=
  if s.frames.isEmpty then do
    let content ← s.openRoot name attributes
    pure (s, content)
  else if isSkipping s.frames then pure (s, .skipped)
  else s.openInside name attributes

/-- What becomes of an element that is closed. -/
def leave (s : State) : Content → Outcome State
  | .document d => pure { s with finished := some d }
  | .group l => do
    let _ ← requireParent s.frames
    pure { s with frames := onParent (·.push l.toElement) s.frames }
  | .title | .passive | .skipped => pure s

/-- Closes the innermost element, which has to have the name. -/
def close (s : State) (name : String) : Outcome State :=
  match s.frames with
  | [] => Outcome.fail (.invalidMarkup (.unopened name))
  | f :: fs =>
    if f.name = name then { s with frames := fs }.leave f.content
    else Outcome.fail (.invalidMarkup (.mismatched name f.name))

/-- Text names the document if it is the first that is not blank and stands in a title directly
under the root. -/
def readText (s : State) (text : String) : State :=
  match s.frames with
  | [⟨titleName, .title⟩, ⟨name, .document d⟩] =>
    let title := Markup.Entity.decode (Text.trim text.toList)
    if d.title.isEmpty && !title.isEmpty then
      let named : Document := { d with title := String.ofList title }
      { s with frames := [⟨titleName, .title⟩, ⟨name, .document named⟩] }
    else s
  | _ => s

def step (s : State) : Event → Outcome State
  | .tag ⟨.opening, name, attributes⟩ => do
    let (s, content) ← s.enter name attributes
    pure { s with frames := ⟨name, content⟩ :: s.frames }
  | .tag ⟨.empty, name, attributes⟩ => do
    let (s, content) ← s.enter name attributes
    s.leave content
  | .tag ⟨.closing, name, _⟩ => s.close name
  | .text text => pure (s.readText text)
  | .comment | .declaration | .instruction => pure s
  | .malformed fault position => Outcome.fail (.invalidMarkup (.malformed fault position))

/-- The document, if the root is closed. -/
def finish (s : State) : Outcome Document :=
  match s.frames with
  | f :: _ => Outcome.fail (.invalidMarkup (.unclosed f.name))
  | [] =>
    match s.finished with
    | some d => pure d
    | none => Outcome.fail (.invalidMarkup .noRoot)

end State

/-- The document that a sequence of events describes. -/
def run (events : List Event) : Outcome Document := do
  let s ← events.foldlM State.step {}
  s.finish

end IconCode.Reader

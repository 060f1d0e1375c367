import IconCode.Proofs.Outcome
import IconCode.Reader.State

/-!
# Reading apart from the title

Text changes the title and nothing else, and nothing but text looks at the title. So a run that
passes over all text gives the same document apart from its title, with the same diagnostics or the
same error.

* `untitled_step`: leaving out the title commutes with every step.
* `untitled_run`: a run without its title is the run that passes over text.
-/

namespace IconCode

/-- A document without its title. -/
def Document.untitled (d : Document) : Document := { d with title := "" }

namespace Reader

open Markup (Attribute Event Tag TagKind)

def Content.untitled : Content → Content
  | .document d => .document d.untitled
  | .group l => .group l
  | .title => .title
  | .passive => .passive
  | .skipped => .skipped

def Frame.untitled (f : Frame) : Frame := { f with content := f.content.untitled }

namespace State

def untitled (s : State) : State where
  frames := s.frames.map Frame.untitled
  finished := s.finished.map Document.untitled

/-- A step that passes over text. -/
def advance (s : State) : Event → Outcome State
  | .text _ => pure s
  | .tag t => s.step (.tag t)
  | .comment | .declaration | .instruction => pure s
  | .malformed fault position => Outcome.fail (.invalidMarkup (.malformed fault position))

end State

/-! ## Open elements -/

theorem parent?_untitled (frames : List Frame) :
    parent? (frames.map Frame.untitled) = parent? frames := by
  induction frames with
  | nil => rfl
  | cons f fs ih =>
    obtain ⟨name, content⟩ := f
    cases content <;> simp [parent?, Frame.untitled, Content.untitled, Document.untitled, ih]

theorem requireParent_untitled (frames : List Frame) :
    requireParent (frames.map Frame.untitled) = requireParent frames := by
  rw [requireParent, parent?_untitled, requireParent]

theorem onParent_untitled (change : Layer → Layer) (frames : List Frame) :
    onParent change (frames.map Frame.untitled) = (onParent change frames).map Frame.untitled := by
  induction frames with
  | nil => rfl
  | cons f fs ih =>
    obtain ⟨name, content⟩ := f
    cases content <;> simp [onParent, Frame.untitled, Content.untitled, Document.untitled, ih]

theorem isSkipping_untitled (frames : List Frame) :
    isSkipping (frames.map Frame.untitled) = isSkipping frames := by
  induction frames with
  | nil => rfl
  | cons f fs ih =>
    obtain ⟨name, content⟩ := f
    simp only [isSkipping] at ih
    cases content <;> simp [isSkipping, Frame.untitled, Content.untitled, ih]

/-! ## Steps -/

namespace State

theorem untitled_openRoot (s : State) (name : String) (attributes : List Attribute) :
    s.untitled.openRoot name attributes = Content.untitled <$> s.openRoot name attributes := by
  unfold openRoot
  simp only [untitled, Option.isSome_map]
  split
  · rfl
  · split
    · simp [rootDocument, Content.untitled, Document.untitled]
    · rfl

theorem untitled_openInside (s : State) (name : String) (attributes : List Attribute) :
    s.untitled.openInside name attributes =
      Prod.map untitled Content.untitled <$> s.openInside name attributes := by
  unfold openInside
  cases Role.ofName name <;>
    simp [untitled, requireParent_untitled, onParent_untitled, Content.untitled]

theorem untitled_enter (s : State) (name : String) (attributes : List Attribute) :
    s.untitled.enter name attributes =
      Prod.map untitled Content.untitled <$> s.enter name attributes := by
  have hempty : s.untitled.frames.isEmpty = s.frames.isEmpty := by simp [untitled]
  have hskip : isSkipping s.untitled.frames = isSkipping s.frames := isSkipping_untitled s.frames
  unfold enter
  rw [hempty, hskip]
  split
  · simp [untitled_openRoot]
  · split
    · simp [Content.untitled]
    · exact untitled_openInside s name attributes

theorem untitled_leave (s : State) (c : Content) :
    s.untitled.leave c.untitled = untitled <$> s.leave c := by
  cases c <;> simp [leave, untitled, Content.untitled, requireParent_untitled, onParent_untitled]

theorem untitled_close (s : State) (name : String) :
    s.untitled.close name = untitled <$> s.close name := by
  obtain ⟨frames, finished⟩ := s
  cases frames with
  | nil => rfl
  | cons f fs =>
    simp only [close, untitled, List.map_cons]
    have hname : f.untitled.name = f.name := rfl
    rw [hname]
    split
    · exact untitled_leave ⟨fs, finished⟩ f.content
    · rfl

theorem untitled_readText (s : State) (text : String) :
    (s.readText text).untitled = s.untitled := by
  unfold readText
  split
  · dsimp only
    split
    · simp [untitled, Frame.untitled, Content.untitled, Document.untitled, *]
    · rfl
  · rfl

theorem untitled_step (s : State) (e : Event) :
    s.untitled.advance e = untitled <$> s.step e := by
  cases e with
  | text text => simp [advance, step, untitled_readText]
  | comment => simp [advance, step]
  | declaration => simp [advance, step]
  | instruction => simp [advance, step]
  | malformed fault position => rfl
  | tag t =>
    obtain ⟨kind, name, attributes⟩ := t
    cases kind with
    | opening =>
      simp only [advance, step, untitled_enter, bind_map_left, map_bind, map_pure]
      rfl
    | empty => simp [advance, step, untitled_enter, untitled_leave]
    | closing => exact untitled_close s name

theorem untitled_finish (s : State) : s.untitled.finish = Document.untitled <$> s.finish := by
  obtain ⟨frames, finished⟩ := s
  cases frames with
  | nil => cases finished <;> rfl
  | cons f fs => rfl

end State

/-! ## Runs -/

theorem untitled_run (events : List Event) :
    Document.untitled <$> run events = events.foldlM State.advance {} >>= State.finish := by
  have hstart : State.untitled {} = {} := rfl
  rw [← hstart, Outcome.foldlM_map State.untitled State.untitled_step]
  simp [run, State.untitled_finish]

end Reader

end IconCode

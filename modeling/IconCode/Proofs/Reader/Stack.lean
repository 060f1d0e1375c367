import IconCode.Proofs.Paint.Fields
import IconCode.Proofs.Path.Grammar
import IconCode.Proofs.Reader.Nesting

/-!
# The stack of open elements

Whatever the events are, balanced or not, the outermost open element is the document and no other
is, what is open inside a skipped element is skipped, and nothing is open once there is a finished
document. So wherever a group or document is looked for, there is one.

* `State.turns_of_step`: what a step does to the open elements and to the finished document.
* `State.Turns.stacked`: such a step preserves the invariant.
* `State.Stacked.exists_of_seeks`: a search for the parent finds it.
* `stacked_of_run`: what holds of every state that a run comes to.
-/

namespace IconCode

/-! ## Malformed values are not about the markup -/

theorem Property.declare_ne_invalidMarkup (p : Property) (s : List Char) (m : MarkupError) :
    p.declare s ≠ .error (.invalidMarkup m) := by
  rw [Property.declare_eq, Property.read_eq]
  cases p.ofTrimmed? (Text.trim s) with
  | some x => simp [Except.map]
  | none => cases p <;> simp [Except.map, Property.malformed]

theorem Style.addClause_ne_invalidMarkup (style : Style) (c : Style.Clause) (m : MarkupError) :
    (style.addClause c).result ≠ .error (.invalidMarkup m) := by
  intro h
  cases c with
  | blank => cases h
  | unknown rule => cases h
  | declaration p value =>
    rcases Outcome.result_bind_error_iff.1 h with h | ⟨_, -, h⟩
    · exact p.declare_ne_invalidMarkup value m h
    · cases h

theorem Style.ofBlock_ne_invalidMarkup (s : List Char) (m : MarkupError) :
    (Style.ofBlock s).result ≠ .error (.invalidMarkup m) := by
  intro h
  obtain ⟨_, c, _, style, -, -, h⟩ := Outcome.foldlM_error_iff.1 h
  exact style.addClause_ne_invalidMarkup c m h

theorem Number.numbers_ne_invalidMarkup (s : List Char) (m : MarkupError) :
    Number.numbers s ≠ .error (.invalidMarkup m) := by
  intro h
  obtain ⟨_, he⟩ := Path.numbers_error h
  cases he

theorem Path.parse_ne_invalidMarkup (data : List Char) (m : MarkupError) :
    Path.parse data ≠ .error (.invalidMarkup m) := by
  rw [Ne, Path.parse_error_iff, Path.instructions_error_iff]
  intro h
  cases h with
  | segment _ _ _ hs => cases hs

namespace Reader

open Markup (Attribute Event Tag TagKind)
open Outcome (result_bind_ok_iff result_bind_error_iff result_map_ok_iff result_map_error_iff)

theorem ValueKind.fault?_ne_invalidMarkup (k : ValueKind) (value : List Char) (m : MarkupError) :
    k.fault? value ≠ some (.invalidMarkup m) := by
  intro h
  cases k with
  | length =>
    have h := Outcome.error?_eq_some_iff.1 h
    simp only [Outcome.ofExcept, Number.length_eq] at h
    cases hx : Number.number? (Number.withoutUnit (Text.trim value)) <;> simp [hx] at h
  | points =>
    have h := Outcome.error?_eq_some_iff.1 h
    simp only [Outcome.ofExcept, Reader.points] at h
    split at h
    · rename_i e he
      cases h
      exact Number.numbers_ne_invalidMarkup value m he
    · split at h <;> cases h
  | commands => exact Path.parse_ne_invalidMarkup value m (Outcome.error?_eq_some_iff.1 h)
  | viewBox =>
    have h := Outcome.error?_eq_some_iff.1 h
    simp only [Outcome.ofExcept, readViewBox] at h
    split at h
    · rename_i e he
      cases h
      exact Number.numbers_ne_invalidMarkup value m he
    · cases h
    · cases h
  | paint p => exact p.declare_ne_invalidMarkup value m (Outcome.error?_eq_some_iff.1 h)
  | block => exact Style.ofBlock_ne_invalidMarkup value m (Outcome.error?_eq_some_iff.1 h)

theorem Subject.fault?_ne_invalidMarkup (x : Subject) (m : MarkupError) :
    x.fault? ≠ some (.invalidMarkup m) := by
  intro h
  obtain ⟨a, -, ha⟩ := List.exists_of_findSome?_eq_some h
  obtain ⟨k, -, hk⟩ := Option.bind_eq_some_iff.1 ha
  exact k.fault?_ne_invalidMarkup a.value.toList m hk

/-! ## Kinds of open elements -/

/-- What an open tag has become, apart from what it holds. -/
inductive Content.Kind where
  | document
  | group
  | title
  | passive
  | skipped
deriving DecidableEq, Repr

def Content.kind : Content → Kind
  | .document _ => .document
  | .group _ => .group
  | .title => .title
  | .passive => .passive
  | .skipped => .skipped

theorem Content.kind_ne_document {c : Content} (h : c.isDocument = false) :
    c.kind ≠ .document := by
  cases c with
  | document d => cases h
  | group l => exact Kind.noConfusion
  | title => exact Kind.noConfusion
  | passive => exact Kind.noConfusion
  | skipped => exact Kind.noConfusion

/-- The kinds of the open elements, the innermost first. -/
def kinds (frames : List Frame) : List Content.Kind := frames.map (·.content.kind)

@[simp] theorem kinds_cons (f : Frame) (frames : List Frame) :
    kinds (f :: frames) = f.content.kind :: kinds frames := rfl

@[simp] theorem kinds_eq_nil_iff {frames : List Frame} : kinds frames = [] ↔ frames = [] :=
  List.map_eq_nil_iff

@[simp] theorem kinds_onParent (change : Layer → Layer) (frames : List Frame) :
    kinds (onParent change frames) = kinds frames := by
  induction frames with
  | nil => rfl
  | cons f fs ih =>
    obtain ⟨name, content⟩ := f
    cases content <;> simp [onParent, Content.kind, ih]

theorem isSkipping_iff (frames : List Frame) :
    isSkipping frames = true ↔ .skipped ∈ kinds frames := by
  induction frames with
  | nil => simp [isSkipping, kinds]
  | cons f fs ih =>
    obtain ⟨name, content⟩ := f
    simp only [isSkipping] at ih
    cases content <;> simp [isSkipping, Content.kind, ih]

theorem exists_parent? {frames : List Frame} (h : .document ∈ kinds frames) :
    ∃ l, parent? frames = some l := by
  induction frames with
  | nil => cases h
  | cons f fs ih =>
    obtain ⟨name, content⟩ := f
    cases content with
    | document d => exact ⟨_, rfl⟩
    | group l => exact ⟨_, rfl⟩
    | title => exact ih (by simpa [Content.kind] using h)
    | passive => exact ih (by simpa [Content.kind] using h)
    | skipped => exact ih (by simpa [Content.kind] using h)

/-! ## Stacks -/

/-- How elements can be open inside each other: the outermost one, and no other, is the document,
and everything inside a skipped element is skipped. -/
structure IsStack (stack : List Content.Kind) : Prop where
  bottom : ∀ k ∈ stack.getLast?, k = .document
  above : ∀ k ∈ stack.dropLast, k ≠ .document
  skipped : stack.Pairwise fun inner outer => outer = .skipped → inner = .skipped

namespace IsStack

variable {k : Content.Kind} {stack : List Content.Kind}

theorem nil : IsStack [] := ⟨by simp, by simp, .nil⟩

theorem root : IsStack [.document] := ⟨by simp, by simp, by simp⟩

theorem push (h : IsStack stack) (hne : stack ≠ []) (hk : k ≠ .document)
    (hskip : .skipped ∈ stack → k = .skipped) : IsStack (k :: stack) := by
  obtain ⟨outer, rest, rfl⟩ := List.exists_cons_of_ne_nil hne
  refine ⟨?_, ?_, List.pairwise_cons.2 ⟨?_, h.skipped⟩⟩
  · rw [List.getLast?_cons_cons]
    exact h.bottom
  · rw [List.dropLast_cons_cons]
    exact List.forall_mem_cons.2 ⟨hk, h.above⟩
  · rintro _ hmem rfl
    exact hskip hmem

theorem pop (h : IsStack (k :: stack)) : IsStack stack := by
  cases stack with
  | nil => exact .nil
  | cons outer rest =>
    refine ⟨?_, ?_, (List.pairwise_cons.1 h.skipped).2⟩
    · simpa only [List.getLast?_cons_cons] using h.bottom
    · have habove := h.above
      rw [List.dropLast_cons_cons] at habove
      exact (List.forall_mem_cons.1 habove).2

/-- The document is open by itself. -/
theorem eq_nil_of_document (h : IsStack (.document :: stack)) : stack = [] := by
  cases stack with
  | nil => rfl
  | cons outer rest => exact absurd rfl (h.above .document (by simp))

theorem ne_nil_of_ne_document (h : IsStack (k :: stack)) (hk : k ≠ .document) : stack ≠ [] := by
  rintro rfl
  exact hk (h.bottom k (by simp))

theorem document_mem (h : IsStack stack) (hne : stack ≠ []) : .document ∈ stack := by
  have hlast := List.getLast?_eq_some_getLast hne
  rw [← h.bottom _ hlast]
  exact List.getLast_mem hne

end IsStack

namespace State

/-- What holds of every state that a run comes to. -/
structure Stacked (s : State) : Prop where
  stack : IsStack (kinds s.frames)
  closed : s.finished ≠ none → s.frames = []

theorem stacked_start : Stacked {} := ⟨.nil, fun h => absurd rfl h⟩

/-! ## Steps -/

/-- What a step does to the open elements and to the finished document. -/
inductive Turns (s s' : State) : Prop where
  | stays (hs : kinds s'.frames = kinds s.frames) (hf : s'.finished = s.finished)
  | opensRoot (hs : s.frames = []) (hs' : kinds s'.frames = [.document]) (hf : s'.finished = none)
  | opens (k : Content.Kind) (hs : s.frames ≠ []) (hk : k ≠ .document)
      (hskip : .skipped ∈ kinds s.frames → k = .skipped)
      (hs' : kinds s'.frames = k :: kinds s.frames) (hf : s'.finished = s.finished)
  | closes (k : Content.Kind) (hk : k ≠ .document) (hs : kinds s.frames = k :: kinds s'.frames)
      (hf : s'.finished = s.finished)
  | closesRoot (hs : kinds s.frames = .document :: kinds s'.frames)
  | emptyRoot (hs' : s'.frames = [])

theorem kinds_readText (s : State) (text : String) :
    kinds (s.readText text).frames = kinds s.frames := by
  unfold readText
  split
  · rename_i hs
    dsimp only
    split
    · rw [hs]
      simp only [kinds_cons, Content.kind]
    · rfl
  · rfl

theorem finished_readText (s : State) (text : String) :
    (s.readText text).finished = s.finished := by
  unfold readText
  split
  · dsimp only
    split <;> rfl
  · rfl

theorem turns_of_opening {s s' : State} {name : String} {attributes : List Attribute}
    (h : (s.step (.tag ⟨.opening, name, attributes⟩)).result = .ok s') : s.Turns s' := by
  obtain ⟨⟨t, c⟩, he, h⟩ := result_bind_ok_iff.1 h
  cases h
  by_cases hs : s.frames = []
  · obtain ⟨hf, -, rfl, d, rfl⟩ := enter_root_ok hs he
    refine .opensRoot hs ?_ hf
    simp [hs, Content.kind]
  · obtain ⟨hc, change, rfl⟩ := enter_inside_ok hs he
    refine .opens c.kind hs (Content.kind_ne_document hc) ?_ ?_ rfl
    · -- Inside a skipped element the name is not even looked at.
      intro hskip
      rw [enter_skipped ((isSkipping_iff _).2 hskip), Outcome.result_pure, Except.ok.injEq,
        Prod.mk.injEq] at he
      rw [← he.2, Content.kind]
    · rw [kinds_cons, kinds_onParent]

theorem turns_of_empty {s s' : State} {name : String} {attributes : List Attribute}
    (h : (s.step (.tag ⟨.empty, name, attributes⟩)).result = .ok s') : s.Turns s' := by
  obtain ⟨⟨t, c⟩, he, hl⟩ := result_bind_ok_iff.1 h
  by_cases hs : s.frames = []
  · obtain ⟨-, -, rfl, d, rfl⟩ := enter_root_ok hs he
    cases hl
    exact .emptyRoot hs
  · obtain ⟨hc, change, rfl⟩ := enter_inside_ok hs he
    obtain ⟨change', rfl⟩ := leave_ok hc hl
    refine .stays ?_ rfl
    rw [kinds_onParent, kinds_onParent]

theorem turns_of_close {s s' : State} {name : String} (h : (s.close name).result = .ok s') :
    s.Turns s' := by
  obtain ⟨frames, finished⟩ := s
  cases frames with
  | nil => cases h
  | cons f fs =>
    obtain ⟨opened, content⟩ := f
    simp only [close] at h
    split at h
    · cases hc : content.isDocument with
      | true =>
        cases content with
        | document d =>
          cases h
          exact .closesRoot rfl
        | group l => cases hc
        | title => cases hc
        | passive => cases hc
        | skipped => cases hc
      | false =>
        obtain ⟨change, rfl⟩ := leave_ok hc h
        refine .closes content.kind (Content.kind_ne_document hc) ?_ rfl
        rw [kinds_cons, kinds_onParent]
    · cases h

theorem turns_of_step {s s' : State} {e : Event} (h : (s.step e).result = .ok s') :
    s.Turns s' := by
  cases e with
  | tag t =>
    obtain ⟨kind, name, attributes⟩ := t
    cases kind with
    | opening => exact turns_of_opening h
    | empty => exact turns_of_empty h
    | closing => exact turns_of_close h
  | text text =>
    cases h
    exact .stays (s.kinds_readText text) (s.finished_readText text)
  | comment =>
    cases h
    exact .stays rfl rfl
  | declaration =>
    cases h
    exact .stays rfl rfl
  | instruction =>
    cases h
    exact .stays rfl rfl
  | malformed fault position => cases h

theorem Turns.stacked {s s' : State} (ht : s.Turns s') (h : s.Stacked) : s'.Stacked := by
  cases ht with
  | stays hs hf =>
    refine ⟨hs ▸ h.stack, fun hfinished => ?_⟩
    rw [hf] at hfinished
    rw [← kinds_eq_nil_iff, hs, kinds_eq_nil_iff]
    exact h.closed hfinished
  | opensRoot hs hs' hf => exact ⟨hs' ▸ .root, fun hfinished => absurd hf hfinished⟩
  | opens k hs hk hskip hs' hf =>
    refine ⟨hs' ▸ h.stack.push (by simpa using hs) hk hskip, fun hfinished => ?_⟩
    rw [hf] at hfinished
    exact absurd (h.closed hfinished) hs
  | closes k hk hs hf =>
    refine ⟨(hs ▸ h.stack : IsStack (k :: kinds s'.frames)).pop, fun hfinished => ?_⟩
    rw [hf] at hfinished
    rw [h.closed hfinished] at hs
    cases hs
  | closesRoot hs =>
    -- The document has nothing underneath, so that nothing is open without it.
    have hstack : IsStack (.document :: kinds s'.frames) := hs ▸ h.stack
    exact ⟨hstack.pop, fun _ => kinds_eq_nil_iff.1 hstack.eq_nil_of_document⟩
  | emptyRoot hs' => exact ⟨by rw [hs']; exact .nil, fun _ => hs'⟩

/-! ## The finished document -/

/-- Behind the root there is no other tag. -/
theorem step_of_finished {s s' : State} {d : Document} (h : s.Stacked) (hf : s.finished = some d)
    {e : Event} (hs : (s.step e).result = .ok s') : s' = s ∧ e.isAside = true := by
  have hframes : s.frames = [] := h.closed (by simp [hf])
  cases e with
  | tag t =>
    obtain ⟨kind, name, attributes⟩ := t
    cases kind with
    | opening =>
      obtain ⟨p, he, -⟩ := result_bind_ok_iff.1 hs
      obtain ⟨hnone, -⟩ := enter_root_ok hframes he
      simp [hf] at hnone
    | empty =>
      obtain ⟨p, he, -⟩ := result_bind_ok_iff.1 hs
      obtain ⟨hnone, -⟩ := enter_root_ok hframes he
      simp [hf] at hnone
    | closing =>
      simp only [step, close, hframes] at hs
      cases hs
  | text text =>
    cases hs
    refine ⟨?_, rfl⟩
    simp only [readText, hframes]
  | comment =>
    cases hs
    exact ⟨rfl, rfl⟩
  | declaration =>
    cases hs
    exact ⟨rfl, rfl⟩
  | instruction =>
    cases hs
    exact ⟨rfl, rfl⟩
  | malformed fault position => cases hs

theorem foldlM_of_finished {s s' : State} {d : Document} (h : s.Stacked)
    (hf : s.finished = some d) {events : List Event}
    (hs : (events.foldlM step s).result = .ok s') :
    s' = s ∧ ∀ e ∈ events, e.isAside = true := by
  induction events with
  | nil =>
    cases hs
    exact ⟨rfl, by simp⟩
  | cons e events ih =>
    rw [List.foldlM_cons, result_bind_ok_iff] at hs
    obtain ⟨t, ht, hs⟩ := hs
    obtain ⟨rfl, he⟩ := step_of_finished h hf ht
    obtain ⟨hsame, hasides⟩ := ih hs
    exact ⟨hsame, List.forall_mem_cons.2 ⟨he, hasides⟩⟩

/-! ## Looking for the parent -/

/-- The open elements among which a step looks for the innermost group or document: for a group or
shape when its tag opens, and for a group again when it is closed. -/
inductive Seeks (s : State) : Event → List Frame → Prop where
  | opened {kind : TagKind} {name : String} {attributes : List Attribute} (hk : kind ≠ .closing)
      (hs : s.frames ≠ []) (hskip : isSkipping s.frames = false)
      (ho : (Owner.ofName? name).isSome = true) :
      s.Seeks (.tag ⟨kind, name, attributes⟩) s.frames
  | emptied {name : String} {attributes : List Attribute} {t : State} {layer : Layer}
      (he : (s.enter name attributes).result = .ok (t, .group layer)) :
      s.Seeks (.tag ⟨.empty, name, attributes⟩) t.frames
  | closed {name : String} {ignored : List Attribute} {layer : Layer} {frames : List Frame}
      (hs : s.frames = ⟨name, .group layer⟩ :: frames) :
      s.Seeks (.tag ⟨.closing, name, ignored⟩) frames

theorem Stacked.exists_parent?_frames {s : State} (h : s.Stacked) (hs : s.frames ≠ []) :
    ∃ layer, parent? s.frames = some layer :=
  exists_parent? (h.stack.document_mem (by simpa using hs))

theorem Stacked.exists_of_seeks {s : State} (h : s.Stacked) {e : Event} {frames : List Frame}
    (hs : s.Seeks e frames) : ∃ layer, parent? frames = some layer := by
  cases hs with
  | opened hk hs hskip ho => exact h.exists_parent?_frames hs
  | @emptied name attributes t layer he =>
    by_cases hs : s.frames = []
    · obtain ⟨-, -, -, d, hd⟩ := enter_root_ok hs he
      cases hd
    · obtain ⟨-, change, rfl⟩ := enter_inside_ok hs he
      obtain ⟨found, hfound⟩ := h.exists_parent?_frames hs
      exact ⟨change found, by rw [parent?_onParent, hfound]; rfl⟩
  | closed hs =>
    have hstack := h.stack
    rw [hs, kinds_cons] at hstack
    have hne := hstack.ne_nil_of_ne_document Content.Kind.noConfusion
    exact exists_parent? (hstack.pop.document_mem hne)

theorem parent?_of_requireParent {frames : List Frame} {e : ReadError}
    (h : (requireParent frames).result = .error e) : parent? frames = none := by
  unfold requireParent at h
  split at h
  · cases h
  · assumption

theorem enter_outsideRoot {s : State} {name : String} {attributes : List Attribute}
    (h : (s.enter name attributes).result = .error (.invalidMarkup .outsideRoot)) :
    s.frames ≠ [] ∧ isSkipping s.frames = false ∧ (Owner.ofName? name).isSome = true ∧
      parent? s.frames = none := by
  unfold enter at h
  split at h
  · rcases result_bind_error_iff.1 h with h | ⟨_, -, h⟩
    · unfold openRoot at h
      split at h
      · cases h
      · split at h
        · rcases result_bind_error_iff.1 h with h | ⟨_, -, h⟩
          · rw [← Outcome.error?_eq_some_iff, error?_rootDocument] at h
            exact absurd h (Subject.fault?_ne_invalidMarkup _ _)
          · cases h
        · cases h
    · cases h
  · rename_i hs
    split at h
    · cases h
    · rename_i hskip
      refine ⟨by simpa using hs, by simpa using hskip, ?_⟩
      unfold openInside at h
      unfold Owner.ofName?
      cases hr : Role.ofName name with
      | group =>
        simp only [hr] at h
        rcases result_bind_error_iff.1 h with h | ⟨_, -, h⟩
        · rw [← Outcome.error?_eq_some_iff, error?_groupStyle] at h
          exact absurd h (Subject.fault?_ne_invalidMarkup _ _)
        · rcases result_bind_error_iff.1 h with h | ⟨_, -, h⟩
          · exact ⟨rfl, parent?_of_requireParent h⟩
          · cases h
      | leaf shape =>
        simp only [hr] at h
        rcases result_bind_error_iff.1 h with h | ⟨_, -, h⟩
        · rw [← Outcome.error?_eq_some_iff, error?_read] at h
          exact absurd h (Subject.fault?_ne_invalidMarkup _ _)
        · rcases result_bind_error_iff.1 h with h | ⟨_, -, h⟩
          · exact ⟨rfl, parent?_of_requireParent h⟩
          · cases h
      | title => simp [hr] at h
      | silent => simp [hr] at h
      | skipped =>
        simp only [hr] at h
        cases h
      | unknown =>
        simp only [hr] at h
        cases h

theorem parent?_of_leave {s : State} {c : Content} {e : ReadError}
    (h : (s.leave c).result = .error e) :
    (∃ layer, c = .group layer) ∧ parent? s.frames = none := by
  cases c with
  | document d => cases h
  | group layer =>
    rcases result_bind_error_iff.1 h with h | ⟨_, -, h⟩
    · exact ⟨⟨layer, rfl⟩, parent?_of_requireParent h⟩
    · cases h
  | title => cases h
  | passive => cases h
  | skipped => cases h

/-- A step says that an element is outside the root only where it looked for a parent in vain. -/
theorem exists_seeks {s : State} {e : Event}
    (h : (s.step e).result = .error (.invalidMarkup .outsideRoot)) :
    ∃ frames, s.Seeks e frames ∧ parent? frames = none := by
  cases e with
  | tag t =>
    obtain ⟨kind, name, attributes⟩ := t
    cases kind with
    | opening =>
      rcases result_bind_error_iff.1 h with h | ⟨_, -, h⟩
      · obtain ⟨hs, hskip, ho, hnone⟩ := enter_outsideRoot h
        exact ⟨s.frames, .opened (by decide) hs hskip ho, hnone⟩
      · cases h
    | empty =>
      rcases result_bind_error_iff.1 h with h | ⟨⟨t, c⟩, he, hl⟩
      · obtain ⟨hs, hskip, ho, hnone⟩ := enter_outsideRoot h
        exact ⟨s.frames, .opened (by decide) hs hskip ho, hnone⟩
      · obtain ⟨⟨layer, rfl⟩, hnone⟩ := parent?_of_leave hl
        exact ⟨t.frames, .emptied he, hnone⟩
    | closing =>
      obtain ⟨frames, finished⟩ := s
      cases frames with
      | nil => cases h
      | cons f fs =>
        obtain ⟨opened, content⟩ := f
        simp only [step, close] at h
        split at h
        · rename_i hname
          subst hname
          obtain ⟨⟨layer, rfl⟩, hnone⟩ := parent?_of_leave h
          exact ⟨fs, .closed rfl, hnone⟩
        · cases h
  | text text => cases h
  | comment => cases h
  | declaration => cases h
  | instruction => cases h
  | malformed fault position => cases h

theorem finish_ne_outsideRoot (s : State) :
    s.finish.result ≠ .error (.invalidMarkup .outsideRoot) := by
  unfold finish
  intro h
  split at h
  · cases h
  · split at h <;> cases h

end State

/-! ## Runs -/

theorem stacked_of_foldlM {events : List Event} {s : State}
    (h : (events.foldlM State.step {}).result = .ok s) : s.Stacked :=
  Outcome.foldlM_preserves State.Stacked
    (fun _ _ _ hs ht => (State.turns_of_step ht).stacked hs) State.stacked_start h

/-- In every state that events lead to, the open elements are a stack with the document at its
bottom, and none is open once the document is finished. From then on the state stays as it is, and
no tag is accepted. Whenever a group or document is looked for there is one, so that no run ends
because an element is outside the root. -/
theorem stacked_of_run (events : List Event) :
    (∀ s, (events.foldlM State.step {}).result = .ok s →
      s.Stacked ∧
      (∀ d, s.finished = some d → ∀ (more : List Event) s',
        (more.foldlM State.step s).result = .ok s' → s' = s ∧ ∀ e ∈ more, e.isAside = true) ∧
      ∀ e frames, s.Seeks e frames → ∃ layer, parent? frames = some layer) ∧
    (run events).result ≠ .error (.invalidMarkup .outsideRoot) := by
  refine ⟨fun s hs => ?_, fun h => ?_⟩
  · have hstacked := stacked_of_foldlM hs
    exact ⟨hstacked, fun d hf more s' => State.foldlM_of_finished hstacked hf,
      fun e frames => hstacked.exists_of_seeks⟩
  · rcases result_bind_error_iff.1 h with h | ⟨s, -, h⟩
    · obtain ⟨before, e, after, s, -, hs, he⟩ := Outcome.foldlM_error_iff.1 h
      obtain ⟨frames, hseeks, hnone⟩ := State.exists_seeks he
      obtain ⟨layer, hsome⟩ := (stacked_of_foldlM hs).exists_of_seeks hseeks
      rw [hnone] at hsome
      cases hsome
    · exact s.finish_ne_outsideRoot h

/-- A drawing inside the definitions of a drawing. -/
def nestedTags : List Event :=
  ["svg", "g", "defs", "svg", "path"].map fun name => .tag ⟨.opening, name, []⟩

theorem stacked_of_run_nested :
    ∃ s, (nestedTags.foldlM State.step {}).result = .ok s ∧
      kinds s.frames = [.skipped, .skipped, .skipped, .group, .document] ∧ s.Stacked ∧
      ∃ layer, parent? s.frames = some layer := by
  have hkinds : (nestedTags.foldlM State.step {}).result.toOption.map (kinds ·.frames) =
      some [.skipped, .skipped, .skipped, .group, .document] := by
    decide +kernel
  obtain ⟨s, hs, hk⟩ := Option.map_eq_some_iff.1 hkinds
  have hrun := toOption_eq_some_iff.1 hs
  have hstacked := ((stacked_of_run nestedTags).1 s hrun).1
  exact ⟨s, hrun, hk, hstacked, exists_parent? (by rw [hk]; decide)⟩

end Reader

end IconCode

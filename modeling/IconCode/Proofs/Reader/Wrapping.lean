import IconCode.Proofs.Outcome.Comparison
import IconCode.Proofs.Reader.Recursion

/-!
# Elements that only wrap

An element that is no group and no shape is an open frame that nothing looks at. Whatever is read
inside it is read to the same with and without the frame: two runs go on side by side, the one with
one frame more than the other, until the frame is closed.

* `Wraps.enter`, `Wraps.leave`: what tags do to both sides.
* `Wraps.foldlM`: so it is with everything that closes as many elements as it opens.
* `foldlM_wrapper`: tags around content are reported at most.
-/

namespace IconCode.Reader

open Markup (Attribute Event Tag TagKind)
open Outcome (Alike Without)

/-! ## Balanced events -/

/-- Whether an event neither opens an element nor closes one. -/
def keepsDepth : Event → Bool
  | .tag ⟨.opening, _, _⟩ | .tag ⟨.closing, _, _⟩ => false
  | .tag ⟨.empty, _, _⟩ | .text _ | .comment | .declaration | .instruction | .malformed .. => true

/-- Every tag that opens an element is followed by the one that closes it. What tags are called does
not matter, nor whether there is anything malformed. -/
inductive Balanced : List Event → Prop where
  | nil : Balanced []
  | single {e : Event} {events : List Event} (he : keepsDepth e = true) (rest : Balanced events) :
      Balanced (e :: events)
  | element {name name' : String} {attributes ignored : List Attribute}
      {inside events : List Event} (content : Balanced inside) (rest : Balanced events) :
      Balanced (.tag ⟨.opening, name, attributes⟩ ::
        (inside ++ .tag ⟨.closing, name', ignored⟩ :: events))

/-! ## One frame more -/

/-- Content of an element that nothing looks at. -/
def Content.isIdle : Content → Bool
  | .passive | .skipped => true
  | .document _ | .group _ | .title => false

/-- The first frames are the second ones with one frame more, below the first `n` and above at least
one. The frame skips nothing that is not skipped anyway. -/
inductive Under (w : Frame) : Nat → List Frame → List Frame → Prop where
  | here {lower : List Frame} (hne : lower ≠ []) (hs : isSkipping (w :: lower) = isSkipping lower) :
      Under w 0 (w :: lower) lower
  | deeper {n : Nat} {fs gs : List Frame} (f : Frame) (h : Under w n fs gs) :
      Under w (n + 1) (f :: fs) (f :: gs)

namespace Under

variable {w : Frame} {n : Nat} {fs gs : List Frame}

theorem ne_nil (h : Under w n fs gs) : fs ≠ [] ∧ gs ≠ [] := by
  cases h with
  | here hne hs => exact ⟨by simp, hne⟩
  | deeper f h => simp

theorem isSkipping_eq (h : Under w n fs gs) : isSkipping fs = isSkipping gs := by
  induction h with
  | here hne hs => exact hs
  | deeper f h ih =>
    simp only [isSkipping, List.any_cons] at ih ⊢
    rw [ih]

variable (hw : w.content.isIdle = true)

include hw

theorem parent?_eq (h : Under w n fs gs) : parent? fs = parent? gs := by
  induction h with
  | here hne hs =>
    obtain ⟨name, content⟩ := w
    cases content <;> first | rfl | cases hw
  | deeper f h ih =>
    obtain ⟨name, content⟩ := f
    cases content <;> simp [parent?, ih]

theorem onParent (h : Under w n fs gs) (change : Layer → Layer) :
    Under w n (onParent change fs) (onParent change gs) := by
  induction h with
  | @here lower hne hs =>
    have hframe : Reader.onParent change (w :: lower) = w :: Reader.onParent change lower := by
      obtain ⟨name, content⟩ := w
      cases content <;> first | rfl | cases hw
    have hskip := isSkipping_onParent change (w :: lower)
    rw [hframe] at hskip ⊢
    refine .here ?_ ?_
    · cases lower with
      | nil => exact absurd rfl hne
      | cons f fs =>
        obtain ⟨name, content⟩ := f
        cases content <;> simp [Reader.onParent]
    · rw [hskip, hs, isSkipping_onParent]
  | deeper f h ih =>
    obtain ⟨name, content⟩ := f
    cases content with
    | document d => exact .deeper _ h
    | group l => exact .deeper _ h
    | title => exact .deeper _ ih
    | passive => exact .deeper _ ih
    | skipped => exact .deeper _ ih

end Under

/-- The first state is the second one with one frame more. -/
structure Wraps (w : Frame) (n : Nat) (s t : State) : Prop where
  frames : Under w n s.frames t.frames
  finished : s.finished = t.finished

namespace Wraps

variable {w : Frame} {n : Nat} {s t : State}

theorem push (h : Wraps w n s t) (f : Frame) : Wraps w (n + 1) (s.push f) (t.push f) :=
  ⟨.deeper f h.frames, h.finished⟩

variable (hw : w.content.isIdle = true)

include hw

theorem onParent (h : Wraps w n s t) (change : Layer → Layer) :
    Wraps w n { s with frames := onParent change s.frames }
      { t with frames := onParent change t.frames } :=
  ⟨h.frames.onParent hw change, h.finished⟩

theorem requireParent_eq (h : Wraps w n s t) : requireParent s.frames = requireParent t.frames := by
  rw [requireParent, requireParent, h.frames.parent?_eq hw]

/-! ## Steps -/

theorem openInside (h : Wraps w n s t) (name : String) (attributes : List Attribute) :
    Alike (fun p q => Wraps w n p.1 q.1 ∧ p.2 = q.2) (s.openInside name attributes)
      (t.openInside name attributes) := by
  unfold State.openInside
  cases Role.ofName name with
  | group =>
    rw [h.requireParent_eq hw]
    refine .bind_right _ fun own => .bind_right _ fun parent => ?_
    exact .pure ⟨h, rfl⟩
  | leaf shape =>
    rw [h.requireParent_eq hw]
    refine .bind_right _ fun element => .bind_right _ fun parent => ?_
    exact .pure ⟨h.onParent hw _, rfl⟩
  | title => exact .pure ⟨h, rfl⟩
  | silent => exact .pure ⟨h, rfl⟩
  | skipped =>
    refine .bind_right _ fun _ => ?_
    exact .pure ⟨h, rfl⟩
  | unknown =>
    refine .bind_right _ fun _ => ?_
    exact .pure ⟨h, rfl⟩

theorem enter (h : Wraps w n s t) (name : String) (attributes : List Attribute) :
    Alike (fun p q => Wraps w n p.1 q.1 ∧ p.2 = q.2) (s.enter name attributes)
      (t.enter name attributes) := by
  obtain ⟨hs, ht⟩ := h.frames.ne_nil
  have hs' : ¬ s.frames.isEmpty = true := by simpa using hs
  have ht' : ¬ t.frames.isEmpty = true := by simpa using ht
  unfold State.enter
  rw [if_neg hs', if_neg ht', h.frames.isSkipping_eq]
  split
  · exact .pure ⟨h, rfl⟩
  · exact h.openInside hw name attributes

theorem leave (h : Wraps w n s t) (c : Content) : Alike (Wraps w n) (s.leave c) (t.leave c) := by
  cases c with
  | document d => exact .pure ⟨h.frames, rfl⟩
  | group l =>
    unfold State.leave
    rw [h.requireParent_eq hw]
    refine .bind_right _ fun parent => ?_
    exact .pure (h.onParent hw _)
  | title => exact .pure h
  | passive => exact .pure h
  | skipped => exact .pure h

theorem opening (h : Wraps w n s t) (name : String) (attributes : List Attribute) :
    Alike (Wraps w (n + 1)) (s.advance (.tag ⟨.opening, name, attributes⟩))
      (t.advance (.tag ⟨.opening, name, attributes⟩)) := by
  refine (h.enter hw name attributes).bind ?_
  rintro ⟨s', c⟩ ⟨t', c'⟩ ⟨h', hc⟩
  cases hc
  exact .pure (h'.push ⟨name, c⟩)

theorem closing (h : Wraps w (n + 1) s t) (name : String) (ignored : List Attribute) :
    Alike (Wraps w n) (s.advance (.tag ⟨.closing, name, ignored⟩))
      (t.advance (.tag ⟨.closing, name, ignored⟩)) := by
  obtain ⟨frames, finished⟩ := s
  obtain ⟨frames', finished'⟩ := t
  obtain ⟨hframes, hfinished⟩ := h
  cases hframes with
  | @deeper _ fs gs f hframes =>
    change Alike (Wraps w n) (State.close ⟨f :: fs, finished⟩ name)
      (State.close ⟨f :: gs, finished'⟩ name)
    have hlower : Wraps w n ⟨fs, finished⟩ ⟨gs, finished'⟩ := ⟨hframes, hfinished⟩
    unfold State.close
    by_cases hname : f.name = name
    · simp only [hname, if_true]
      exact hlower.leave hw f.content
    · simp only [hname, if_false]
      exact .fail _

theorem keeping (h : Wraps w n s t) {e : Event} (he : keepsDepth e = true) :
    Alike (Wraps w n) (s.advance e) (t.advance e) := by
  cases e with
  | tag tag =>
    obtain ⟨kind, name, attributes⟩ := tag
    cases kind with
    | opening => cases he
    | closing => cases he
    | empty =>
      refine (h.enter hw name attributes).bind ?_
      rintro ⟨s', c⟩ ⟨t', c'⟩ ⟨h', hc⟩
      cases hc
      exact h'.leave hw c
  | text text => exact .pure h
  | comment => exact .pure h
  | declaration => exact .pure h
  | instruction => exact .pure h
  | malformed fault position => exact .fail _

/-- Both sides go on in step as long as no more is closed than was opened. -/
theorem foldlM {events : List Event} (hb : Balanced events) (h : Wraps w n s t) :
    Alike (Wraps w n) (events.foldlM State.advance s) (events.foldlM State.advance t) := by
  induction hb generalizing n s t with
  | nil => exact .pure h
  | single he _ ih =>
    rw [List.foldlM_cons, List.foldlM_cons]
    exact (h.keeping hw he).bind fun _ _ h' => ih h'
  | element _ _ ihc ih =>
    simp only [List.foldlM_cons, List.foldlM_append]
    refine (h.opening hw _ _).bind fun _ _ h₁ => ?_
    refine (ihc h₁).bind fun _ _ h₂ => ?_
    refine (h₂.closing hw _ _).bind fun _ _ h₃ => ?_
    exact ih h₃

/-- Without anything above it, the frame is closed by its own tag. -/
theorem closing_self (h : Wraps w 0 s t) (ignored : List Attribute) :
    s.advance (.tag ⟨.closing, w.name, ignored⟩) = pure t := by
  obtain ⟨frames, finished⟩ := s
  obtain ⟨frames', finished'⟩ := t
  obtain ⟨hframes, hfinished⟩ := h
  cases hframes with
  | here hne hs =>
    cases hfinished
    obtain ⟨name, content⟩ := w
    have hclose := State.advance_closing_push ⟨frames', finished⟩ name ignored content
    refine hclose.trans ?_
    cases content <;> first | rfl | cases hw

end Wraps

/-! ## Wrappers -/

/-- Whether elements of a name stand for nothing but what is inside them. -/
def IsWrapper (name : String) : Prop := Role.ofName name = .silent ∨ Role.ofName name = .unknown

namespace State

/-- What is reported of an element that is only a wrapper. -/
def wrapperReports (s : State) (name : String) : List Diagnostic :=
  if isSkipping s.frames = false ∧ Role.ofName name = .unknown then [.unknownElement name] else []

section Wrapper

variable {s : State} (hs : s.frames ≠ []) {name : String} (hname : IsWrapper name)

include hs hname

theorem enter_wrapper (attributes : List Attribute) :
    ∃ c : Content, c.isIdle = true ∧
      isSkipping (⟨name, c⟩ :: s.frames) = isSkipping s.frames ∧
      s.enter name attributes = ⟨s.wrapperReports name, .ok (s, c)⟩ := by
  have hempty : ¬ s.frames.isEmpty = true := by simpa using hs
  unfold enter wrapperReports
  rw [if_neg hempty]
  cases hskip : isSkipping s.frames with
  | true => exact ⟨.skipped, rfl, rfl, rfl⟩
  | false =>
    refine ⟨.passive, rfl, hskip, ?_⟩
    rcases hname with hr | hr
    · simp only [openInside, hr]
      rfl
    · simp only [openInside, hr]
      rfl

/-- The tags of a wrapper are reported at most. -/
theorem foldlM_wrapper {content : List Event} (hb : Balanced content)
    (attributes ignored : List Attribute) :
    Without (s.wrapperReports name)
      ((Event.tag ⟨.opening, name, attributes⟩ ::
        (content ++ [.tag ⟨.closing, name, ignored⟩])).foldlM advance s)
      (content.foldlM advance s) := by
  obtain ⟨c, hc, hskip, henter⟩ := enter_wrapper hs hname attributes
  have hwraps : Wraps ⟨name, c⟩ 0 (s.push ⟨name, c⟩) s := ⟨.here hs hskip, rfl⟩
  have hinside : (content ++ [Event.tag ⟨.closing, name, ignored⟩]).foldlM advance
      (s.push ⟨name, c⟩) = content.foldlM advance s := by
    refine Alike.eq ?_
    rw [List.foldlM_append, ← bind_pure (content.foldlM advance s)]
    refine (hwraps.foldlM hc hb).bind fun s' t' h => ?_
    rw [List.foldlM_cons, h.closing_self hc, pure_bind]
    exact .pure rfl
  have hopening : s.advance (.tag ⟨.opening, name, attributes⟩) =
      ⟨s.wrapperReports name, .ok (s.push ⟨name, c⟩)⟩ := by
    rw [advance_opening, henter]
    exact Outcome.ext (List.append_nil _) rfl
  rw [List.foldlM_cons, hopening, Outcome.bind_of_ok rfl, hinside]
  exact .of_report _ _

/-- So is an empty tag. -/
theorem step_empty_wrapper (attributes : List Attribute) :
    s.step (.tag ⟨.empty, name, attributes⟩) = ⟨s.wrapperReports name, .ok s⟩ := by
  obtain ⟨c, hc, -, henter⟩ := enter_wrapper hs hname attributes
  have hleave : s.leave c = pure s := by
    cases c <;> first | rfl | cases hc
  rw [step, henter, Outcome.bind_of_ok rfl]
  simp only [hleave]
  exact Outcome.ext (List.append_nil _) rfl

end Wrapper

end State

end IconCode.Reader

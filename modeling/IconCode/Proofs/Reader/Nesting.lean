import IconCode.Proofs.Reader.Values

/-!
# Accepted events

A run succeeds only on events that write one tree whose root is called `svg`. Any sequence of
events is compared with the trees that it writes so far: those that are complete and, around each
open element, those that stand before it.

* `Reached.advance`: what a step adds to the trees that are written so far.
* `Reached.advance_error`: where a step can fail for another reason than the markup.
* `run_ok_iff_writesRoot`: which events are accepted.
-/

namespace IconCode.Reader

open Markup (Attribute Event Tag TagKind TagTree Written)
open Outcome (result_bind_ok_iff result_bind_error_iff result_map_ok_iff result_map_error_iff)

/-! ## Open elements -/

def Content.isDocument : Content → Bool
  | .document _ => true
  | .group _ | .title | .passive | .skipped => false

/-- The events after which these elements are open, the innermost first: nothing is complete before
the root, and before every other open element there are the trees that precede it. -/
inductive Opened : List Frame → List Event → Prop where
  | root {before inside : List Event} {trees : List TagTree} {d : Document}
      {attributes : List Attribute} (hb : Written [] before) (hi : Written trees inside) :
      Opened [⟨"svg", .document d⟩] (before ++ .tag ⟨.opening, "svg", attributes⟩ :: inside)
  | inside {f : Frame} {frames : List Frame} {before inside : List Event} {trees : List TagTree}
      {attributes : List Attribute} (hb : Opened frames before)
      (hc : f.content.isDocument = false) (hi : Written trees inside) :
      Opened (f :: frames) (before ++ .tag ⟨.opening, f.name, attributes⟩ :: inside)

namespace Opened

theorem append {frames : List Frame} {events more : List Event} {trees : List TagTree}
    (h : Opened frames events) (hw : Written trees more) : Opened frames (events ++ more) := by
  cases h with
  | root hb hi => simpa using Opened.root hb (hi.append hw)
  | inside hb hc hi => simpa using Opened.inside hb hc (hi.append hw)

theorem onParent {frames : List Frame} {events : List Event} (h : Opened frames events)
    (change : Layer → Layer) : Opened (onParent change frames) events := by
  induction h with
  | root hb hi => exact .root hb hi
  | @inside f frames before inside trees attributes hb hc hi ih =>
    obtain ⟨name, content⟩ := f
    cases content with
    | document d => cases hc
    | group l => exact .inside hb rfl hi
    | title => exact .inside ih rfl hi
    | passive => exact .inside ih rfl hi
    | skipped => exact .inside ih rfl hi

theorem ne_nil {frames : List Frame} {events : List Event} (h : Opened frames events) :
    frames ≠ [] := by
  cases h <;> simp

/-- One more element is open. -/
theorem push {frames : List Frame} {events : List Event} (h : Opened frames events) (name : String)
    (attributes : List Attribute) {c : Content} (hc : c.isDocument = false) :
    Opened (⟨name, c⟩ :: frames) (events ++ [.tag ⟨.opening, name, attributes⟩]) :=
  .inside (f := ⟨name, c⟩) h hc .nil

end Opened

/-- The events that have been read when a run has come to a state. -/
inductive Reached : State → List Event → Prop where
  | start {events : List Event} (h : Written [] events) : Reached {} events
  | opened {frames : List Frame} {events : List Event} (h : Opened frames events) :
      Reached ⟨frames, none⟩ events
  | finished {root : TagTree} {d : Document} {events : List Event} (h : WritesRoot root events) :
      Reached ⟨[], some d⟩ events

namespace Reached

theorem aside {s : State} {events : List Event} (h : Reached s events) {e : Event}
    (he : e.isAside = true) : Reached s (events ++ [e]) := by
  have hw := Written.single_aside he
  cases h with
  | start h => exact .start (h.append hw)
  | opened h => exact .opened (h.append hw)
  | finished h => exact .finished ⟨h.1, by simpa using h.2.append hw⟩

end Reached

/-! ## Successful steps -/

theorem enter_root_ok {s s' : State} {name : String} {attributes : List Attribute} {c : Content}
    (hs : s.frames = []) (h : (s.enter name attributes).result = .ok (s', c)) :
    s.finished = none ∧ name = "svg" ∧ s' = s ∧ ∃ d, c = .document d := by
  simp only [State.enter, hs, List.isEmpty_nil, if_true, State.openRoot, result_bind_ok_iff,
    Outcome.result_pure, Except.ok.injEq, Prod.mk.injEq] at h
  obtain ⟨c', h, rfl, rfl⟩ := h
  split at h
  · cases h
  · rename_i hf
    split at h
    · rename_i hn
      simp only [result_bind_ok_iff, Outcome.result_pure, Except.ok.injEq] at h
      obtain ⟨d, -, hd⟩ := h
      exact ⟨by simpa using hf, hn, rfl, d, hd.symm⟩
    · cases h

/-- What an element becomes is decided by its role, and only the parent is changed. -/
theorem openInside_ok {s s' : State} {name : String} {attributes : List Attribute} {c : Content}
    (h : (s.openInside name attributes).result = .ok (s', c)) :
    c.isDocument = false ∧ (c = .title ↔ Role.ofName name = .title) ∧
      ∃ change, s' = { s with frames := onParent change s.frames } := by
  have hself : s = { s with frames := onParent (fun l => l) s.frames } := by rw [onParent_self]
  unfold State.openInside at h
  cases hr : Role.ofName name with
  | group =>
    simp only [hr, result_bind_ok_iff, Outcome.result_pure, Except.ok.injEq, Prod.mk.injEq] at h
    obtain ⟨_, _, _, _, rfl, rfl⟩ := h
    exact ⟨rfl, by simp, _, hself⟩
  | leaf shape =>
    simp only [hr, result_bind_ok_iff, Outcome.result_pure, Except.ok.injEq, Prod.mk.injEq] at h
    obtain ⟨_, _, _, _, rfl, rfl⟩ := h
    exact ⟨rfl, by simp, _, rfl⟩
  | title =>
    simp only [hr, Outcome.result_pure, Except.ok.injEq, Prod.mk.injEq] at h
    obtain ⟨rfl, rfl⟩ := h
    exact ⟨rfl, iff_of_true rfl rfl, _, hself⟩
  | silent =>
    simp only [hr, Outcome.result_pure, Except.ok.injEq, Prod.mk.injEq] at h
    obtain ⟨rfl, rfl⟩ := h
    exact ⟨rfl, by simp, _, hself⟩
  | skipped =>
    simp only [hr, result_bind_ok_iff, Outcome.result_pure, Except.ok.injEq, Prod.mk.injEq] at h
    obtain ⟨_, _, rfl, rfl⟩ := h
    exact ⟨rfl, by simp, _, hself⟩
  | unknown =>
    simp only [hr, result_bind_ok_iff, Outcome.result_pure, Except.ok.injEq, Prod.mk.injEq] at h
    obtain ⟨_, _, rfl, rfl⟩ := h
    exact ⟨rfl, by simp, _, hself⟩

/-- Inside the root, opening an element only changes the parent. -/
theorem enter_inside_ok {s s' : State} {name : String} {attributes : List Attribute} {c : Content}
    (hs : s.frames ≠ []) (h : (s.enter name attributes).result = .ok (s', c)) :
    c.isDocument = false ∧ ∃ change, s' = { s with frames := onParent change s.frames } := by
  have hempty : s.frames.isEmpty = false := by simpa using hs
  unfold State.enter at h
  simp only [hempty, Bool.false_eq_true, if_false] at h
  split at h
  · cases h
    exact ⟨rfl, fun l => l, by rw [onParent_self]⟩
  · obtain ⟨hc, -, hs'⟩ := openInside_ok h
    exact ⟨hc, hs'⟩

theorem leave_ok {s s' : State} {c : Content} (hc : c.isDocument = false)
    (h : (s.leave c).result = .ok s') :
    ∃ change, s' = { s with frames := onParent change s.frames } := by
  have hself : s = { s with frames := onParent (fun l => l) s.frames } := by rw [onParent_self]
  cases c with
  | document d => cases hc
  | group l =>
    simp only [State.leave, result_bind_ok_iff, Outcome.result_pure, Except.ok.injEq] at h
    obtain ⟨_, _, rfl⟩ := h
    exact ⟨_, rfl⟩
  | title => cases h; exact ⟨_, hself⟩
  | passive => cases h; exact ⟨_, hself⟩
  | skipped => cases h; exact ⟨_, hself⟩

namespace Reached

theorem opening {s s' : State} {events : List Event} (h : Reached s events) (name : String)
    (attributes : List Attribute)
    (hs : (s.advance (.tag ⟨.opening, name, attributes⟩)).result = .ok s') :
    Reached s' (events ++ [.tag ⟨.opening, name, attributes⟩]) := by
  rw [State.advance_opening, result_map_ok_iff] at hs
  obtain ⟨⟨t, c⟩, he, rfl⟩ := hs
  cases h with
  | start h =>
    obtain ⟨-, rfl, rfl, d, rfl⟩ := enter_root_ok rfl he
    exact .opened (.root h .nil)
  | finished h =>
    obtain ⟨hf, -⟩ := enter_root_ok rfl he
    cases hf
  | opened h =>
    obtain ⟨hc, change, rfl⟩ := enter_inside_ok h.ne_nil he
    exact .opened ((h.onParent change).push name attributes hc)

theorem closing {s s' : State} {events : List Event} (h : Reached s events) (name : String)
    (ignored : List Attribute)
    (hs : (s.advance (.tag ⟨.closing, name, ignored⟩)).result = .ok s') :
    Reached s' (events ++ [.tag ⟨.closing, name, ignored⟩]) := by
  change (s.close name).result = .ok s' at hs
  cases h with
  | start h => cases hs
  | finished h => cases hs
  | opened h =>
    cases h with
    | @root before inside trees d attributes hb hi =>
      simp only [State.close] at hs
      split at hs
      · rename_i hn
        subst hn
        cases hs
        have hw := hb.append (.single "svg" attributes ignored hi)
        have hroot : WritesRoot (.node "svg" attributes trees) _ := ⟨rfl, hw⟩
        simpa using Reached.finished hroot
      · cases hs
    | @inside f frames before inside trees attributes hb hc hi =>
      simp only [State.close] at hs
      split at hs
      · rename_i hn
        subst hn
        obtain ⟨change, rfl⟩ := leave_ok hc hs
        have hw := (hb.onParent change).append (.single f.name attributes ignored hi)
        simpa using Reached.opened hw
      · cases hs

/-- An empty tag keeps what is open as it is. -/
theorem empty {s s' : State} {events : List Event} (h : Reached s events) (name : String)
    (attributes : List Attribute)
    (hs : (s.advance (.tag ⟨.empty, name, attributes⟩)).result = .ok s') :
    Reached s' (events ++ [.tag ⟨.empty, name, attributes⟩]) := by
  obtain ⟨⟨t, c⟩, he, hl⟩ := result_bind_ok_iff.1 hs
  have hw := Written.single_empty name attributes
  cases h with
  | start h =>
    obtain ⟨-, rfl, rfl, d, rfl⟩ := enter_root_ok rfl he
    cases hl
    exact .finished ⟨rfl, h.append hw⟩
  | finished h =>
    obtain ⟨hf, -⟩ := enter_root_ok rfl he
    cases hf
  | opened h =>
    obtain ⟨hc, change, rfl⟩ := enter_inside_ok h.ne_nil he
    obtain ⟨change', rfl⟩ := leave_ok hc hl
    exact .opened (((h.onParent change).onParent change').append hw)

theorem advance {s s' : State} {events : List Event} (h : Reached s events) {e : Event}
    (hs : (s.advance e).result = .ok s') : Reached s' (events ++ [e]) := by
  cases e with
  | tag t =>
    obtain ⟨kind, name, attributes⟩ := t
    cases kind with
    | opening => exact h.opening name attributes hs
    | empty => exact h.empty name attributes hs
    | closing => exact h.closing name attributes hs
  | malformed fault position => cases hs
  | text text =>
    cases hs
    exact h.aside rfl
  | comment =>
    cases hs
    exact h.aside rfl
  | declaration =>
    cases hs
    exact h.aside rfl
  | instruction =>
    cases hs
    exact h.aside rfl

theorem foldlM {s s' : State} {events more : List Event} (h : Reached s events)
    (hs : (more.foldlM State.advance s).result = .ok s') : Reached s' (events ++ more) := by
  induction more generalizing s events with
  | nil =>
    cases hs
    simpa using h
  | cons e more ih =>
    rw [List.foldlM_cons, result_bind_ok_iff] at hs
    obtain ⟨t, ht, hs⟩ := hs
    simpa using ih (h.advance ht) hs

end Reached

/-! ## Completion -/

/-- Closing tags with these names. -/
def closings (names : List String) : List Event := names.map fun name => .tag ⟨.closing, name, []⟩

/-- Whether there is one tree whose root is called `svg` that the events are the beginning of, with
nothing but closing tags to follow. -/
def Completable (events : List Event) : Prop :=
  ∃ names root, WritesRoot root (events ++ closings names)

theorem Opened.completable_append {frames : List Frame} {events : List Event}
    (h : Opened frames events) {trees : List TagTree} {more : List Event}
    (hw : Written trees more) :
    Completable (events ++ more) := by
  induction h generalizing trees more with
  | @root before inside others _ attributes hb hi =>
    refine ⟨["svg"], .node "svg" attributes (others ++ trees), rfl, ?_⟩
    simpa [closings] using hb.append (.single "svg" attributes [] (hi.append hw))
  | @inside f _ before inside _ attributes hb hc hi ih =>
    -- The closing tag makes one tree of the innermost element, inside the next one.
    obtain ⟨names, root, hr⟩ := ih (.single f.name attributes [] (hi.append hw))
    refine ⟨f.name :: names, root, ?_⟩
    simpa [closings] using hr

/-- Whatever is open can be closed. -/
theorem Opened.completable {frames : List Frame} {events : List Event} (h : Opened frames events) :
    Completable events := by
  simpa using h.completable_append .nil

/-! ## Failing steps -/

theorem requireParent_error {frames : List Frame} {e : ReadError}
    (h : (requireParent frames).result = .error e) : ∃ m, e = .invalidMarkup m := by
  unfold requireParent at h
  split at h
  · cases h
  · cases h
    exact ⟨_, rfl⟩

theorem leave_error {s : State} {c : Content} {e : ReadError}
    (h : (s.leave c).result = .error e) : ∃ m, e = .invalidMarkup m := by
  cases c with
  | group l =>
    simp only [State.leave, result_bind_error_iff, Outcome.result_pure, reduceCtorEq, and_false,
      exists_false, or_false] at h
    exact requireParent_error h
  | document d => cases h
  | title => cases h
  | passive => cases h
  | skipped => cases h

theorem close_error {s : State} {name : String} {e : ReadError}
    (h : (s.close name).result = .error e) : ∃ m, e = .invalidMarkup m := by
  unfold State.close at h
  split at h
  · cases h
    exact ⟨_, rfl⟩
  · split at h
    · exact leave_error h
    · cases h
      exact ⟨_, rfl⟩

/-- The name of the root and the place of the tag are looked at before its attributes. -/
theorem enter_root_error {s : State} {name : String} {attributes : List Attribute} {e : ReadError}
    (hs : s.frames = []) (h : (s.enter name attributes).result = .error e) :
    (∃ m, e = .invalidMarkup m) ∨ s.finished = none ∧ name = "svg" := by
  simp only [State.enter, hs, List.isEmpty_nil, if_true, State.openRoot, result_bind_error_iff,
    Outcome.result_pure, reduceCtorEq, and_false, exists_false, or_false] at h
  split at h
  · cases h
    exact .inl ⟨_, rfl⟩
  · rename_i hf
    split at h
    · rename_i hn
      exact .inr ⟨by simpa using hf, hn⟩
    · cases h
      exact .inl ⟨_, rfl⟩

namespace Reached

theorem enter_error {s : State} {events : List Event} (h : Reached s events) {name : String}
    {attributes : List Attribute} {e : ReadError}
    (he : (s.enter name attributes).result = .error e) :
    (∃ m, e = .invalidMarkup m) ∨
      Completable (events ++ [.tag ⟨.opening, name, attributes⟩]) ∧
        Completable (events ++ [.tag ⟨.empty, name, attributes⟩]) := by
  cases h with
  | start h =>
    rcases enter_root_error rfl he with hm | ⟨-, rfl⟩
    · exact .inl hm
    · have hempty := h.append (.single_empty "svg" attributes)
      have hopened : Opened [⟨"svg", .document {}⟩]
          (events ++ [.tag ⟨.opening, "svg", attributes⟩]) := .root h .nil
      exact .inr ⟨hopened.completable, [], .node "svg" attributes [], rfl,
        by simpa [closings] using hempty⟩
  | finished h =>
    rcases enter_root_error rfl he with hm | ⟨hf, -⟩
    · exact .inl hm
    · cases hf
  | opened h =>
    exact .inr ⟨(h.push name attributes (c := .passive) rfl).completable,
      h.completable_append (.single_empty name attributes)⟩

/-- A step that fails is about the markup unless the events up to it nest. -/
theorem advance_error {s : State} {events : List Event} (h : Reached s events) {x : Event}
    {e : ReadError} (he : (s.advance x).result = .error e) :
    (∃ m, e = .invalidMarkup m) ∨ Completable (events ++ [x]) := by
  cases x with
  | tag t =>
    obtain ⟨kind, name, attributes⟩ := t
    cases kind with
    | opening =>
      rw [State.advance_opening, result_map_error_iff] at he
      exact (h.enter_error he).imp_right And.left
    | empty =>
      rcases result_bind_error_iff.1 he with hr | ⟨p, -, hl⟩
      · exact (h.enter_error hr).imp_right And.right
      · exact .inl (leave_error hl)
    | closing => exact .inl (close_error he)
  | malformed fault position =>
    cases he
    exact .inl ⟨_, rfl⟩
  | text text => cases he
  | comment => cases he
  | declaration => cases he
  | instruction => cases he

end Reached

/-! ## Runs -/

theorem finish_error {s : State} {e : ReadError} (h : s.finish.result = .error e) :
    ∃ m, e = .invalidMarkup m := by
  unfold State.finish at h
  split at h
  · cases h
    exact ⟨_, rfl⟩
  · split at h
    · cases h
    · cases h
      exact ⟨_, rfl⟩

theorem run_error?_eq (events : List Event) :
    (run events).error? = (events.foldlM State.advance {} >>= State.finish).error? := by
  rw [← untitled_run, Outcome.error?_map]

/-- The error of markup that nests is the first malformed value. -/
theorem run_error?_of_writesRoot {root : TagTree} {events : List Event}
    (h : WritesRoot root events) :
    (run events).error? = root.rootSubjects.findSome? Subject.fault? := by
  rw [run_error?_eq, foldlM_root_finish h, TagTree.error?_document]

theorem writesRoot_of_run_ok {events : List Event} {d : Document}
    (h : (run events).result = .ok d) : ∃ root, WritesRoot root events := by
  have hrun : (Document.untitled <$> run events).result = .ok d.untitled :=
    result_map_ok_iff.2 ⟨d, h, rfl⟩
  rw [untitled_run, result_bind_ok_iff] at hrun
  obtain ⟨s, hs, hf⟩ := hrun
  have hreached := (Reached.start .nil).foldlM hs
  cases hreached with
  | start => cases hf
  | finished h => exact ⟨_, h⟩
  | opened ho =>
    cases ho with
    | root => cases hf
    | inside => cases hf

/-- An error that is not about the markup is that of a malformed value in a beginning of the
events that nests. -/
theorem run_error {events : List Event} {e : ReadError} (h : (run events).result = .error e) :
    (∃ m, e = .invalidMarkup m) ∨
      ∃ before after names root, events = before ++ after ∧
        WritesRoot root (before ++ closings names) ∧
        root.rootSubjects.findSome? Subject.fault? = some e := by
  have hrun := run_error?_eq events
  rw [Outcome.error?_eq_some_iff.2 h, eq_comm, Outcome.error?_eq_some_iff,
    result_bind_error_iff] at hrun
  rcases hrun with hrun | ⟨s, -, hf⟩
  · obtain ⟨before, x, after, s, rfl, hs, hx⟩ := Outcome.foldlM_error_iff.1 hrun
    have hreached := (Reached.start .nil).foldlM hs
    rcases hreached.advance_error hx with hm | ⟨names, root, hroot⟩
    · exact .inl hm
    · refine .inr ⟨before ++ [x], after, names, root, by simp, hroot, ?_⟩
      rw [← run_error?_of_writesRoot hroot, run_error?_eq, Outcome.error?_eq_some_iff,
        result_bind_error_iff]
      exact .inl (Outcome.foldlM_error_iff.2 ⟨before, x, closings names, s, by simp, hs, hx⟩)
  · exact .inl (finish_error hf)

theorem Subject.fault?_eq_none_iff {x : Subject} :
    x.fault? = none ↔ ∀ a ∈ ordered x.attributes, x.owner.fault? a = none :=
  List.findSome?_eq_none_iff

/-- Events are accepted if and only if they write one tree whose root is called `svg` and in which
no value that is looked at is malformed. Otherwise, the error is about the markup or that of the
first malformed value, which stands where the events still nest. -/
theorem run_ok_iff_writesRoot (events : List Event) :
    (∀ d, (run events).result = .ok d →
      (∃ root, WritesRoot root events) ∧
        ∀ fault position, .malformed fault position ∉ events) ∧
    (∀ root, WritesRoot root events →
      ((∃ d, (run events).result = .ok d) ↔
        ∀ x ∈ root.rootSubjects, ∀ a ∈ ordered x.attributes, x.owner.fault? a = none)) ∧
    ∀ e, (run events).result = .error e →
      (∃ m, e = .invalidMarkup m) ∨
        ∃ before after names root, events = before ++ after ∧
          WritesRoot root (before ++ closings names) ∧
          root.rootSubjects.findSome? Subject.fault? = some e := by
  refine ⟨?_, ?_, fun e => run_error⟩
  · intro d h
    obtain ⟨root, hroot⟩ := writesRoot_of_run_ok h
    exact ⟨⟨root, hroot⟩, hroot.2.not_malformed⟩
  · intro root hroot
    rw [← Outcome.error?_eq_none_iff, run_error?_of_writesRoot hroot, List.findSome?_eq_none_iff]
    simp only [Subject.fault?_eq_none_iff]

end IconCode.Reader

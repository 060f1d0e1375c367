import IconCode.Proofs.Reader.Unread
import IconCode.Proofs.Reader.Wrapping

/-!
# Input without effect

What the reader passes over has no effect on anything around it. Wherever it stands, the events
without it give the same document or the same error, and no diagnostics are missing but its own.

* `foldlM_step_skipped`: content of a skipped element.
* `run_without_ignored`: attributes that are not understood, clauses that say nothing, content of
  skipped elements, and tags of wrappers.
-/

namespace IconCode.Reader

open Markup (Attribute Event Tag TagKind TagTree Written)
open Outcome (Without)

/-! ## Skipped content -/

theorem readText_of_isSkipping {s : State} (hs : isSkipping s.frames = true) (text : String) :
    s.readText text = s := by
  unfold State.readText
  split
  · rename_i hframes
    simp [hframes, isSkipping] at hs
  · rfl

theorem step_aside_of_isSkipping {s : State} (hs : isSkipping s.frames = true) {e : Event}
    (he : e.isAside = true) : s.step e = pure s := by
  cases e with
  | text text => rw [State.step, readText_of_isSkipping hs]
  | comment => rfl
  | declaration => rfl
  | instruction => rfl
  | tag t => cases he
  | malformed fault position => cases he

/-- Neither a title nor anything else is read inside a skipped element. -/
theorem foldlM_step_skipped {trees : List TagTree} {content : List Event}
    (h : Written trees content) (s : State) (hs : isSkipping s.frames = true) :
    content.foldlM State.step s = pure s := by
  induction h generalizing s with
  | nil => rfl
  | aside ha _ ih => rw [List.foldlM_cons, step_aside_of_isSkipping hs ha, pure_bind, ih s hs]
  | empty _ ih =>
    rw [List.foldlM_cons, State.step, enter_skipped hs, pure_bind]
    exact ih s hs
  | @element name attributes ignored children trees inside events _ _ ihc ih =>
    have hopening : s.step (.tag ⟨.opening, name, attributes⟩) =
        pure (s.push ⟨name, .skipped⟩) := by
      rw [State.step, enter_skipped hs, pure_bind]
      rfl
    have hclosing : (s.push ⟨name, .skipped⟩).step (.tag ⟨.closing, name, ignored⟩) = pure s :=
      State.advance_closing_push s name ignored .skipped
    rw [List.foldlM_cons, hopening, pure_bind, List.foldlM_append,
      ihc _ (isSkipping_push_skipped s name), pure_bind, List.foldlM_cons, hclosing, pure_bind,
      ih s hs]

/-- The tag that opens a skipped element, and so everything inside it is skipped. -/
theorem isSkipping_of_step_opening {s s' : State} (hs : s.frames ≠ []) {name : String}
    (hr : Role.ofName name = .skipped) {attributes : List Attribute}
    (h : (s.step (.tag ⟨.opening, name, attributes⟩)).result = .ok s') :
    isSkipping s'.frames = true := by
  have hempty : ¬ s.frames.isEmpty = true := by simpa using hs
  obtain ⟨⟨t, c⟩, henter, hpush⟩ := Outcome.result_bind_ok_iff.1 h
  cases hpush
  unfold State.enter at henter
  rw [if_neg hempty] at henter
  split at henter
  · cases henter
    exact isSkipping_push_skipped s name
  · simp only [State.openInside, hr] at henter
    cases henter
    exact isSkipping_push_skipped s name

theorem foldlM_skipped_content {s : State} (hs : s.frames ≠ []) {name : String}
    (hr : Role.ofName name = .skipped) (attributes : List Attribute) {trees : List TagTree}
    {content : List Event} (hw : Written trees content) :
    (Event.tag ⟨.opening, name, attributes⟩ :: content).foldlM State.step s =
      [Event.tag ⟨.opening, name, attributes⟩].foldlM State.step s := by
  rw [List.foldlM_cons, List.foldlM_cons]
  rcases Outcome.ok_or_error (s.step (.tag ⟨.opening, name, attributes⟩)) with ⟨s', h⟩ | ⟨e, h⟩
  · rw [Outcome.bind_of_ok h, Outcome.bind_of_ok h,
      foldlM_step_skipped hw s' (isSkipping_of_step_opening hs hr h)]
    rfl
  · rw [Outcome.bind_of_error h, Outcome.bind_of_error h]

/-! ## Runs -/

/-- After a failure nothing more counts. -/
theorem run_append_of_error {before : List Event} {e : ReadError}
    (h : (before.foldlM State.step {}).result = .error e) (item other : List Event) :
    run (before ++ item) = run (before ++ other) := by
  simp only [run, List.foldlM_append, Outcome.bind_of_error h]

/-- In a run, one part gives way to another. -/
theorem run_without {before : List Event} {s : State}
    (hs : (before.foldlM State.step {}).result = .ok s) {own : List Diagnostic}
    {item other : List Event}
    (h : Without own (item.foldlM State.step s) (other.foldlM State.step s))
    (after : List Event) :
    Without own (run (before ++ (item ++ after))) (run (before ++ (other ++ after))) := by
  refine Without.bind (Without.foldlM before item other after {} ?_) State.finish
  intro s' hs'
  rw [hs] at hs'
  cases hs'
  exact h

theorem foldlM_advance_eq (events : List Event) :
    events.foldlM State.advance {} = State.untitled <$> events.foldlM State.step {} := by
  have hstart : State.untitled {} = {} := rfl
  rw [← hstart, Outcome.foldlM_map State.untitled State.untitled_step]
  rfl

/-- Text apart, one part of a run gives way to another. -/
theorem untitled_run_without {before : List Event} {s : State}
    (hs : (before.foldlM State.step {}).result = .ok s) {own : List Diagnostic}
    {item other : List Event}
    (h : Without own (item.foldlM State.advance s.untitled)
      (other.foldlM State.advance s.untitled))
    (after : List Event) :
    Without own (Document.untitled <$> run (before ++ (item ++ after)))
      (Document.untitled <$> run (before ++ (other ++ after))) := by
  rw [untitled_run, untitled_run]
  refine Without.bind (Without.foldlM before item other after {} ?_) State.finish
  intro s' hs'
  rw [foldlM_advance_eq, Outcome.result_map_ok_iff] at hs'
  obtain ⟨t, ht, rfl⟩ := hs'
  rw [hs] at ht
  cases ht
  exact h

/-! ## Tags with less to read -/

/-- What a tag's owner has reported of something that is not understood; of a tag without an owner
nothing is looked at. -/
def State.ownerReports (s : State) (t : Tag) (reports : List Diagnostic) : List Diagnostic :=
  if (s.owner? t).isSome then reports else []

theorem foldlM_tag_without {s : State} (kind : TagKind) {name : String}
    {attributes others : List Attribute} {own : List Diagnostic}
    (h : ∀ o, s.owner? ⟨kind, name, attributes⟩ = some o →
      GathersWithout o name own attributes others) :
    Without (s.ownerReports ⟨kind, name, attributes⟩ own)
      ([Event.tag ⟨kind, name, attributes⟩].foldlM State.step s)
      ([Event.tag ⟨kind, name, others⟩].foldlM State.step s) := by
  rw [List.foldlM_cons, List.foldlM_cons, State.ownerReports]
  cases ho : s.owner? ⟨kind, name, attributes⟩ with
  | none =>
    rw [State.step_congr ho others]
    exact .refl _
  | some o => exact (State.step_without ho (h o ho)).bind _

/-! ## Input that is passed over -/

section Ignored

variable {before : List Event} {s : State} (hs : (before.foldlM State.step {}).result = .ok s)
  (after : List Event)

include hs

/-- An attribute that is not understood. -/
theorem run_without_attribute (kind : TagKind) {element name : String}
    {attributes : List Attribute}
    (h : ∀ o ∈ s.owner? ⟨kind, element, attributes⟩, o.kind? name = none) :
    Without (s.ownerReports ⟨kind, element, attributes⟩ (nameReports element name attributes))
      (run (before ++ .tag ⟨kind, element, attributes⟩ :: after))
      (run (before ++ .tag ⟨kind, element, without name attributes⟩ :: after)) := by
  have hstep := foldlM_tag_without kind fun o ho =>
    gathersWithout_attribute (h o ho) element attributes
  exact run_without hs hstep after

/-- A clause that says nothing. -/
theorem run_without_clause (kind : TagKind) (element : String) {block : String}
    {attributes : List Attribute} {clause : List Char} {front back : List (List Char)}
    (hmem : ⟨"style", block⟩ ∈ ordered attributes)
    (hblock : Text.pieces ';' block.toList = front ++ clause :: back)
    (h : Style.SaysNothing clause) :
    Without (s.ownerReports ⟨kind, element, attributes⟩ (Style.clauseReports clause))
      (run (before ++ .tag ⟨kind, element, attributes⟩ :: after))
      (run (before ++
        .tag ⟨kind, element, withBlock (blockText (front ++ back)) attributes⟩ :: after)) := by
  have hgathers : ∀ o, s.owner? ⟨kind, element, attributes⟩ = some o →
      GathersWithout o element (Style.clauseReports clause) attributes
        (withBlock (blockText (front ++ back)) attributes) :=
    fun o _ => gathersWithout_clause o element hmem hblock h
  exact run_without hs (foldlM_tag_without kind hgathers) after

variable (hroot : s.frames ≠ []) {name : String} (attributes : List Attribute)

include hroot

/-- Everything inside a skipped element. -/
theorem run_skipped_content (hr : Role.ofName name = .skipped) {trees : List TagTree}
    {content : List Event} (hw : Written trees content) :
    run (before ++ .tag ⟨.opening, name, attributes⟩ :: (content ++ after)) =
      run (before ++ .tag ⟨.opening, name, attributes⟩ :: after) := by
  have hstep : Without [] ((Event.tag ⟨.opening, name, attributes⟩ :: content).foldlM State.step s)
      ([Event.tag ⟨.opening, name, attributes⟩].foldlM State.step s) := by
    rw [foldlM_skipped_content hroot hr attributes hw]
    exact .refl _
  exact (run_without hs hstep after).eq

/-- The tags of a wrapper. -/
theorem run_without_wrapper (hname : IsWrapper name) (ignored : List Attribute)
    {content : List Event} (hb : Balanced content) :
    Without (s.wrapperReports name)
      (Document.untitled <$> run (before ++ .tag ⟨.opening, name, attributes⟩ ::
        (content ++ .tag ⟨.closing, name, ignored⟩ :: after)))
      (Document.untitled <$> run (before ++ (content ++ after))) := by
  have hroot' : s.untitled.frames ≠ [] := by simpa [State.untitled] using hroot
  have hstep := State.foldlM_wrapper hroot' hname hb attributes ignored
  have hreports : s.untitled.wrapperReports name = s.wrapperReports name := by
    rw [State.wrapperReports, State.untitled, isSkipping_untitled, State.wrapperReports]
  rw [hreports] at hstep
  have hrun := untitled_run_without hs hstep after
  simpa using hrun

theorem run_without_empty_wrapper (hname : IsWrapper name) :
    Without (s.wrapperReports name) (run (before ++ .tag ⟨.empty, name, attributes⟩ :: after))
      (run (before ++ after)) := by
  have hstep : Without (s.wrapperReports name)
      ([Event.tag ⟨.empty, name, attributes⟩].foldlM State.step s) ([].foldlM State.step s) := by
    rw [List.foldlM_cons, State.step_empty_wrapper hroot hname attributes]
    exact .of_report _ (pure s)
  exact run_without hs hstep after

end Ignored

/-- Wherever events are read, taking away what is passed over changes neither the error nor the
document, and no diagnostics but its own are missing. That is an attribute that is not understood,
a clause of a style block that says nothing, everything inside a skipped element, and the tags of a
wrapper, which may only keep a title from being the document's. -/
theorem run_without_ignored (before after : List Event) :
    (∀ e, (before.foldlM State.step {}).result = .error e →
      ∀ item other : List Event, run (before ++ item) = run (before ++ other)) ∧
    ∀ s : State, (before.foldlM State.step {}).result = .ok s →
      (∀ (kind : TagKind) (element name : String) (attributes : List Attribute),
        (∀ o ∈ s.owner? ⟨kind, element, attributes⟩, o.kind? name = none) →
        Without (s.ownerReports ⟨kind, element, attributes⟩ (nameReports element name attributes))
          (run (before ++ .tag ⟨kind, element, attributes⟩ :: after))
          (run (before ++ .tag ⟨kind, element, without name attributes⟩ :: after))) ∧
      (∀ (kind : TagKind) (element block : String) (attributes : List Attribute)
        (clause : List Char) (front back : List (List Char)),
        ⟨"style", block⟩ ∈ ordered attributes →
        Text.pieces ';' block.toList = front ++ clause :: back → Style.SaysNothing clause →
        Without (s.ownerReports ⟨kind, element, attributes⟩ (Style.clauseReports clause))
          (run (before ++ .tag ⟨kind, element, attributes⟩ :: after))
          (run (before ++
            .tag ⟨kind, element, withBlock (blockText (front ++ back)) attributes⟩ :: after))) ∧
      (s.frames ≠ [] → ∀ (name : String) (attributes : List Attribute),
        (∀ (trees : List TagTree) (content : List Event), Role.ofName name = .skipped →
          Written trees content →
          run (before ++ .tag ⟨.opening, name, attributes⟩ :: (content ++ after)) =
            run (before ++ .tag ⟨.opening, name, attributes⟩ :: after)) ∧
        (IsWrapper name →
          (∀ (ignored : List Attribute) (content : List Event), Balanced content →
            Without (s.wrapperReports name)
              (Document.untitled <$> run (before ++ .tag ⟨.opening, name, attributes⟩ ::
                (content ++ .tag ⟨.closing, name, ignored⟩ :: after)))
              (Document.untitled <$> run (before ++ (content ++ after)))) ∧
          Without (s.wrapperReports name) (run (before ++ .tag ⟨.empty, name, attributes⟩ :: after))
            (run (before ++ after)))) := by
  refine ⟨fun e he => run_append_of_error he, ?_⟩
  intro s hs
  refine ⟨?_, ?_, ?_⟩
  · intro kind element name attributes h
    exact run_without_attribute hs after kind h
  · intro kind element block attributes clause front back hmem hblock h
    exact run_without_clause hs after kind element hmem hblock h
  · intro hroot name attributes
    refine ⟨?_, ?_⟩
    · intro trees content hr hw
      exact run_skipped_content hs after hroot attributes hr hw
    · intro hname
      refine ⟨?_, run_without_empty_wrapper hs after hroot attributes hname⟩
      intro ignored content hb
      exact run_without_wrapper hs after hroot attributes hname ignored hb

/-- What is read up to the content of a root without attributes. -/
def rootOpened : List Event := [.tag ⟨.opening, "svg", []⟩]

/-- The end of a root. -/
def rootClosed : List Event := [.tag ⟨.closing, "svg", []⟩]

/-- A path whose data is malformed. -/
def brokenPath : List Event := [.tag ⟨.empty, "path", [⟨"d", "M x"⟩]⟩]

/-- A shape, and text that is the document's title if nothing is around it. -/
def titledShape : List Event :=
  [.tag ⟨.empty, "rect", []⟩, .tag ⟨.opening, "title", []⟩, .text "a", .tag ⟨.closing, "title", []⟩]

theorem run_without_ignored_inside :
    Without [.unknownAttribute "rect" "glow" "1"]
      (run (rootOpened ++ .tag ⟨.empty, "rect", [⟨"glow", "1"⟩, ⟨"fill", "red"⟩]⟩ :: rootClosed))
      (run (rootOpened ++ .tag ⟨.empty, "rect", [⟨"fill", "red"⟩]⟩ :: rootClosed)) ∧
    Without [.unknownStyleRule "glow: 1"]
      (run (rootOpened ++ .tag ⟨.empty, "g", [⟨"style", "fill:red; glow: 1"⟩]⟩ :: rootClosed))
      (run (rootOpened ++ .tag ⟨.empty, "g", [⟨"style", "fill:red"⟩]⟩ :: rootClosed)) ∧
    run (rootOpened ++ .tag ⟨.opening, "defs", []⟩ ::
        (brokenPath ++ .tag ⟨.closing, "defs", []⟩ :: rootClosed)) =
      run (rootOpened ++ .tag ⟨.opening, "defs", []⟩ ::
        .tag ⟨.closing, "defs", []⟩ :: rootClosed) ∧
    Without [.unknownElement "blink"]
      (Document.untitled <$> run (rootOpened ++ .tag ⟨.opening, "blink", []⟩ ::
        (titledShape ++ .tag ⟨.closing, "blink", []⟩ :: rootClosed)))
      (Document.untitled <$> run (rootOpened ++ (titledShape ++ rootClosed))) := by
  let root := State.inRoot { size := Canvas.size {}, viewBox := Canvas.shown {} }
  have hs : (rootOpened.foldlM State.step {}).result = .ok root := rfl
  have hroot : root.frames ≠ [] := by simp [root, State.inRoot, State.push]
  obtain ⟨-, hignored⟩ := run_without_ignored rootOpened rootClosed
  obtain ⟨hattribute, hclause, hinside⟩ := hignored root hs
  obtain ⟨-, hdefs⟩ := run_without_ignored rootOpened (.tag ⟨.closing, "defs", []⟩ :: rootClosed)
  obtain ⟨-, -, hdefs⟩ := hdefs root hs
  refine ⟨?_, ?_, ?_, ?_⟩
  · exact hattribute .empty "rect" "glow" [⟨"glow", "1"⟩, ⟨"fill", "red"⟩] (by decide +kernel)
  · have hsays : Style.SaysNothing " glow: 1".toList :=
      .inr (.inr ⟨" glow".toList, " 1".toList, by decide, by decide, by decide +kernel⟩)
    have hshorter : withBlock (blockText ["fill:red".toList])
        [⟨"style", "fill:red; glow: 1"⟩] = [⟨"style", "fill:red"⟩] := by decide +kernel
    have hwithout := hclause .empty "g" "fill:red; glow: 1" [⟨"style", "fill:red; glow: 1"⟩]
      " glow: 1".toList ["fill:red".toList] [] (by decide +kernel) (by decide +kernel) hsays
    rwa [List.append_nil, hshorter] at hwithout
  · obtain ⟨hskipped, -⟩ := hdefs hroot "defs" []
    exact hskipped [.node "path" [⟨"d", "M x"⟩] []] brokenPath (by decide) (.empty .nil)
  · obtain ⟨-, hwrapper⟩ := hinside hroot "blink" []
    have hbalanced : Balanced titledShape := .single rfl (.element (.single rfl .nil) .nil)
    exact (hwrapper (.inr (by decide))).1 [] titledShape hbalanced

end IconCode.Reader

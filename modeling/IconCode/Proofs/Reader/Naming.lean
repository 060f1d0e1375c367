import Mathlib.Data.List.Induction
import IconCode.Proofs.Markup.Entity
import IconCode.Proofs.Outcome.Comparison
import IconCode.Proofs.Reader.Nesting

/-!
# What names a document

A document has the name that is written in a title directly under its root: the first text there
that is not blank, with its entities decoded. No other text is looked at.

* `Titled.step`: what the title is when a step has been made.
* `run_without_text`: text that does not name the document can be left out.
* `run_title_eq`: the title of a document by its events.
-/

namespace IconCode.Reader

open Markup (Attribute Event Tag TagKind)
open Outcome (Without result_bind_ok_iff)

/-! ## Open tags -/

/-- The names of the open tags after one more event, the innermost first. -/
def nest (tags : List String) : Event → List String
  | .tag ⟨.opening, name, _⟩ => name :: tags
  | .tag ⟨.closing, _, _⟩ => tags.tail
  | .tag ⟨.empty, _, _⟩ | .text _ | .comment | .declaration | .instruction | .malformed .. => tags

/-- The names of the tags that are open after events. -/
def openTags (events : List Event) : List String := events.foldl nest []

/-- The text of an event without the blanks around it, if there is any and if nothing is open but
a title in the root. -/
def titleText? (tags : List String) : Event → Option (List Char)
  | .text text =>
    if tags = ["title", "svg"] ∧ Text.trim text.toList ≠ [] then some (Text.trim text.toList)
    else none
  | .tag _ | .comment | .declaration | .instruction | .malformed .. => none

/-- The texts of the titles in the root, where some tags are open already. -/
def titleTextsFrom (tags : List String) : List Event → List (List Char)
  | [] => []
  | e :: events => (titleText? tags e).toList ++ titleTextsFrom (nest tags e) events

def titleTexts (events : List Event) : List (List Char) := titleTextsFrom [] events

/-- The title that events give to a document. -/
def titleOf (events : List Event) : String :=
  String.ofList ((titleTexts events).head?.elim [] Markup.Entity.decode)

theorem openTags_concat (events : List Event) (e : Event) :
    openTags (events ++ [e]) = nest (openTags events) e := by
  simp [openTags]

theorem titleTextsFrom_append (tags : List String) (events more : List Event) :
    titleTextsFrom tags (events ++ more) =
      titleTextsFrom tags events ++ titleTextsFrom (events.foldl nest tags) more := by
  induction events generalizing tags with
  | nil => rfl
  | cons e events ih =>
    rw [List.cons_append, titleTextsFrom, titleTextsFrom, ih, List.append_assoc, List.foldl_cons]

theorem titleTexts_concat (events : List Event) (e : Event) :
    titleTexts (events ++ [e]) = titleTexts events ++ (titleText? (openTags events) e).toList := by
  simp [titleTexts, titleTextsFrom_append, titleTextsFrom, openTags]

theorem ne_nil_of_titleText? {tags : List String} {e : Event} {s : List Char}
    (h : titleText? tags e = some s) : s ≠ [] := by
  cases e with
  | text text =>
    rw [titleText?] at h
    split at h
    · rename_i hp
      cases h
      exact hp.2
    · cases h
  | _ => cases h

theorem ne_nil_of_mem_titleTextsFrom {tags : List String} {events : List Event} {s : List Char}
    (h : s ∈ titleTextsFrom tags events) : s ≠ [] := by
  induction events generalizing tags with
  | nil => cases h
  | cons e events ih =>
    rw [titleTextsFrom, List.mem_append, Option.mem_toList] at h
    rcases h with h | h
    · exact ne_nil_of_titleText? h
    · exact ih h

/-- A document without title has had no text for one. -/
theorem titleOf_eq_empty_iff (events : List Event) :
    titleOf events = "" ↔ titleTexts events = [] := by
  have hne : ∀ s ∈ titleTexts events, s ≠ [] := fun s hs => ne_nil_of_mem_titleTextsFrom hs
  rw [titleOf]
  cases htexts : titleTexts events with
  | nil => simp
  | cons s texts =>
    have hs : Markup.Entity.decode s ≠ [] :=
      mt (Markup.Entity.decode_eq_nil_iff s).1 (hne s (by simp [htexts]))
    simp [hs]

theorem titleOf_concat (events : List Event) (e : Event) :
    titleOf (events ++ [e]) =
      if titleTexts events = [] then
        String.ofList ((titleText? (openTags events) e).elim [] Markup.Entity.decode)
      else titleOf events := by
  rw [titleOf, titleTexts_concat, titleOf]
  cases titleTexts events with
  | nil =>
    rw [if_pos rfl]
    cases titleText? (openTags events) e <;> rfl
  | cons s texts => simp

/-- An event without such a text leaves the title as it is. -/
theorem titleOf_concat_of_none {events : List Event} {e : Event}
    (h : titleText? (openTags events) e = none) : titleOf (events ++ [e]) = titleOf events := by
  rw [titleOf_concat, h]
  split
  · rename_i hnil
    exact ((titleOf_eq_empty_iff events).2 hnil).symm
  · rfl

theorem titleOf_concat_tag (events : List Event) (t : Tag) :
    titleOf (events ++ [.tag t]) = titleOf events :=
  titleOf_concat_of_none rfl

/-- Whether a text after these events is what the document is named by: a title in the root is
open and nothing else, the text is not blank, and it is the first one. -/
def Names (before : List Event) (text : String) : Prop :=
  openTags before = ["title", "svg"] ∧ Text.trim text.toList ≠ [] ∧ titleTexts before = []

theorem titleOf_concat_of_names {events : List Event} {text : String} (h : Names events text) :
    titleOf (events ++ [.text text]) =
      String.ofList (Markup.Entity.decode (Text.trim text.toList)) := by
  obtain ⟨hnames, htrim, htexts⟩ := h
  rw [titleOf_concat, if_pos htexts, titleText?, if_pos ⟨hnames, htrim⟩, Option.elim_some]

theorem titleOf_concat_of_not_names {events : List Event} {text : String}
    (h : ¬ Names events text) : titleOf (events ++ [.text text]) = titleOf events := by
  by_cases htexts : titleTexts events = []
  · apply titleOf_concat_of_none
    rw [titleText?, if_neg]
    rintro ⟨hnames, htrim⟩
    exact h ⟨hnames, htrim, htexts⟩
  · rw [titleOf_concat, if_neg htexts]

/-- What comes after the text that names a document does not matter. -/
theorem titleOf_of_names {before : List Event} {text : String} (h : Names before text)
    (after : List Event) : titleOf (before ++ .text text :: after) =
      String.ofList (Markup.Entity.decode (Text.trim text.toList)) := by
  obtain ⟨hnames, htrim, htexts⟩ := h
  have hself : titleText? (openTags before) (.text text) = some (Text.trim text.toList) := by
    rw [titleText?, if_pos ⟨hnames, htrim⟩]
  have hall : titleTexts (before ++ .text text :: after) =
      Text.trim text.toList :: titleTextsFrom (nest (openTags before) (.text text)) after := by
    rw [titleTexts, titleTextsFrom_append, ← titleTexts, htexts, ← openTags, titleTextsFrom, hself]
    rfl
  rw [titleOf, hall, List.head?_cons, Option.elim_some]

theorem titleTexts_eq_nil {events : List Event}
    (h : ∀ before text after, events = before ++ .text text :: after → ¬ Names before text) :
    titleTexts events = [] := by
  induction events using List.reverseRecOn with
  | nil => rfl
  | append_singleton events e ih =>
    have htexts : titleTexts events = [] :=
      ih fun before text after heq => h before text (after ++ [e]) (by simp [heq])
    have hlast : titleText? (openTags events) e = none := by
      cases e with
      | text text =>
        rw [titleText?, if_neg]
        rintro ⟨hnames, htrim⟩
        exact h events text [] rfl ⟨hnames, htrim, htexts⟩
      | _ => rfl
    rw [titleTexts_concat, htexts, hlast]
    rfl

/-! ## Open elements -/

theorem Role.ofName_eq_title_iff (name : String) : ofName name = .title ↔ name = "title" := by
  constructor
  · intro h
    by_cases hg : name = "g"
    · simp [ofName, hg] at h
    · cases hshape : ShapeName.ofText? name with
      | some shape => simp [ofName, hg, hshape] at h
      | none =>
        by_cases htitle : name = "title"
        · exact htitle
        · simp only [ofName, hg, hshape, htitle, if_false] at h
          split at h
          · cases h
          · split at h <;> cases h
  · rintro rfl
    decide

/-- What is opened inside the root becomes a title if that is its name and nothing around it is
skipped. -/
theorem enter_inside_title_iff {s s' : State} {name : String} {attributes : List Attribute}
    {c : Content} (hs : s.frames ≠ []) (hskip : isSkipping s.frames = false)
    (h : (s.enter name attributes).result = .ok (s', c)) : c = .title ↔ name = "title" := by
  have hempty : s.frames.isEmpty = false := by simpa using hs
  simp only [State.enter, hempty, hskip, Bool.false_eq_true, if_false] at h
  rw [(openInside_ok h).2.1, Role.ofName_eq_title_iff]

/-- A root has no title when it is opened. -/
theorem enter_root_untitled {s s' : State} {name : String} {attributes : List Attribute}
    {d : Document} (hs : s.frames = [])
    (h : (s.enter name attributes).result = .ok (s', .document d)) : d.title = "" := by
  simp only [State.enter, hs, List.isEmpty_nil, if_true, State.openRoot, result_bind_ok_iff,
    Outcome.result_pure, Except.ok.injEq, Prod.mk.injEq] at h
  obtain ⟨c, h, -, rfl⟩ := h
  split at h
  · cases h
  · split at h
    · simp only [rootDocument, result_bind_ok_iff, Outcome.result_pure, Except.ok.injEq,
        Content.document.injEq] at h
      obtain ⟨_, ⟨_, _, rfl⟩, rfl⟩ := h
      rfl
    · cases h

/-- The open elements around and in a root, the innermost first: below the root there is no other
document, and if nothing is skipped the titles are the elements of that name. -/
inductive Placed (d : Document) : List Frame → Prop where
  | root : Placed d [⟨"svg", .document d⟩]
  | inside {name : String} {c : Content} {frames : List Frame} (h : Placed d frames)
      (hc : c.isDocument = false) (ht : isSkipping frames = false → (c = .title ↔ name = "title")) :
      Placed d (⟨name, c⟩ :: frames)

namespace Placed

variable {d : Document} {frames : List Frame}

theorem ne_nil (h : Placed d frames) : frames ≠ [] := by
  cases h <;> simp

theorem onParent (h : Placed d frames) (change : Layer → Layer) :
    ∃ d', d'.title = d.title ∧ Placed d' (onParent change frames) := by
  induction h with
  | root => exact ⟨{ d with toLayer := change d.toLayer }, rfl, .root⟩
  | @inside name c frames h hc ht ih =>
    obtain ⟨d', htitle, h'⟩ := ih
    have ht' : isSkipping (Reader.onParent change frames) = false →
        (c = .title ↔ name = "title") := by rwa [isSkipping_onParent]
    cases c with
    | document d => cases hc
    | group l => exact ⟨d, rfl, .inside h rfl (by simpa using ht)⟩
    | title => exact ⟨d', htitle, .inside h' rfl ht'⟩
    | passive => exact ⟨d', htitle, .inside h' rfl ht'⟩
    | skipped => exact ⟨d', htitle, .inside h' rfl ht'⟩

/-- The frames of a title in the root. -/
theorem names_eq_iff (h : Placed d frames) :
    frames.map Frame.name = ["title", "svg"] ↔
      frames = [⟨"title", .title⟩, ⟨"svg", .document d⟩] := by
  constructor
  · intro hnames
    cases h with
    | root => simp at hnames
    | inside h hc ht =>
      cases h with
      | root =>
        obtain ⟨rfl, -⟩ := List.cons.inj hnames
        rw [(ht rfl).2 rfl]
      | inside h => simp [h.ne_nil] at hnames
  · rintro rfl
    rfl

theorem readText_of_ne (h : Placed d frames) (hnames : frames.map Frame.name ≠ ["title", "svg"])
    (finished : Option Document) (text : String) :
    State.readText ⟨frames, finished⟩ text = ⟨frames, finished⟩ := by
  unfold State.readText
  split
  · rename_i hframes
    cases hframes
    -- Nothing is skipped under a root, so this title is one by its name.
    cases h with
    | inside h hc ht =>
      cases h with
      | root => simp [(ht rfl).1 rfl] at hnames
      | inside h hc => cases hc
  · rfl

end Placed

theorem readText_title (d : Document) (finished : Option Document) (text : String) :
    State.readText ⟨[⟨"title", .title⟩, ⟨"svg", .document d⟩], finished⟩ text =
      if d.title = "" ∧ Text.trim text.toList ≠ [] then
        let title := String.ofList (Markup.Entity.decode (Text.trim text.toList))
        ⟨[⟨"title", .title⟩, ⟨"svg", .document { d with title }⟩], finished⟩
      else ⟨[⟨"title", .title⟩, ⟨"svg", .document d⟩], finished⟩ := by
  simp only [State.readText, Bool.and_eq_true, String.isEmpty_iff, Bool.not_eq_true',
    List.isEmpty_eq_false_iff, ne_eq, Markup.Entity.decode_eq_nil_iff]

theorem map_name_onParent (change : Layer → Layer) (frames : List Frame) :
    (onParent change frames).map Frame.name = frames.map Frame.name := by
  induction frames with
  | nil => rfl
  | cons f fs ih =>
    obtain ⟨name, content⟩ := f
    cases content <;> simp [onParent, ih]

/-- A state that a run has come to, and the events that have been read: the same tags are open, and
the root has the title that the events give to it. -/
inductive Titled : State → List Event → Prop where
  | start {events : List Event} (htags : openTags events = []) (ht : titleOf events = "") :
      Titled {} events
  | opened {d : Document} {frames : List Frame} {events : List Event} (h : Placed d frames)
      (htags : openTags events = frames.map Frame.name) (ht : titleOf events = d.title) :
      Titled ⟨frames, none⟩ events
  | finished {d : Document} {events : List Event} (htags : openTags events = [])
      (ht : titleOf events = d.title) : Titled ⟨[], some d⟩ events

namespace Titled

variable {s s' : State} {events : List Event}

theorem opening (h : Titled s events) (name : String) (attributes : List Attribute)
    (hs : (s.advance (.tag ⟨.opening, name, attributes⟩)).result = .ok s') :
    Titled s' (events ++ [.tag ⟨.opening, name, attributes⟩]) := by
  rw [State.advance_opening, Outcome.result_map_ok_iff] at hs
  obtain ⟨⟨t, c⟩, he, rfl⟩ := hs
  cases h with
  | start htags ht =>
    obtain ⟨-, rfl, rfl, d, rfl⟩ := enter_root_ok rfl he
    refine .opened .root ?_ ?_
    · rw [openTags_concat, htags]
      rfl
    · rw [titleOf_concat_tag, ht, enter_root_untitled rfl he]
  | finished =>
    obtain ⟨hf, -⟩ := enter_root_ok rfl he
    cases hf
  | opened h htags ht =>
    obtain ⟨hc, change, rfl⟩ := enter_inside_ok h.ne_nil he
    obtain ⟨d', hd', h'⟩ := h.onParent change
    refine .opened (h'.inside hc ?_) ?_ ?_
    · rw [isSkipping_onParent]
      exact fun hskip => enter_inside_title_iff h.ne_nil hskip he
    · rw [openTags_concat, htags, List.map_cons, map_name_onParent]
      rfl
    · rw [titleOf_concat_tag, ht, hd']

theorem closing (h : Titled s events) (name : String) (ignored : List Attribute)
    (hs : (s.advance (.tag ⟨.closing, name, ignored⟩)).result = .ok s') :
    Titled s' (events ++ [.tag ⟨.closing, name, ignored⟩]) := by
  change (s.close name).result = .ok s' at hs
  cases h with
  | start => cases hs
  | finished => cases hs
  | opened h htags ht =>
    cases h with
    | root =>
      simp only [State.close] at hs
      split at hs
      · cases hs
        refine .finished ?_ ?_
        · rw [openTags_concat, htags]
          rfl
        · rw [titleOf_concat_tag, ht]
      · cases hs
    | @inside own c frames h hc hkind =>
      simp only [State.close] at hs
      split at hs
      · obtain ⟨change, rfl⟩ := leave_ok hc hs
        obtain ⟨d', hd', h'⟩ := h.onParent change
        refine .opened h' ?_ ?_
        · rw [openTags_concat, htags, map_name_onParent]
          rfl
        · rw [titleOf_concat_tag, ht, hd']
      · cases hs

/-- An empty tag keeps what is open and the title as they are. -/
theorem empty (h : Titled s events) (name : String) (attributes : List Attribute)
    (hs : (s.advance (.tag ⟨.empty, name, attributes⟩)).result = .ok s') :
    Titled s' (events ++ [.tag ⟨.empty, name, attributes⟩]) := by
  obtain ⟨⟨t, c⟩, he, hl⟩ := result_bind_ok_iff.1 hs
  cases h with
  | start htags ht =>
    obtain ⟨-, rfl, rfl, d, rfl⟩ := enter_root_ok rfl he
    cases hl
    refine .finished ?_ ?_
    · rw [openTags_concat, htags]
      rfl
    · rw [titleOf_concat_tag, ht, enter_root_untitled rfl he]
  | finished =>
    obtain ⟨hf, -⟩ := enter_root_ok rfl he
    cases hf
  | opened h htags ht =>
    obtain ⟨hc, change, rfl⟩ := enter_inside_ok h.ne_nil he
    obtain ⟨change', rfl⟩ := leave_ok hc hl
    obtain ⟨d', hd', h'⟩ := h.onParent change
    obtain ⟨d'', hd'', h''⟩ := h'.onParent change'
    refine .opened h'' ?_ ?_
    · rw [openTags_concat, htags, map_name_onParent, map_name_onParent]
      rfl
    · rw [titleOf_concat_tag, ht, hd'', hd']

/-- An event that opens and closes nothing and leaves the title as it is. -/
theorem aside (h : Titled s events) {e : Event} (hnest : nest (openTags events) e = openTags events)
    (htitle : titleOf (events ++ [e]) = titleOf events) : Titled s (events ++ [e]) := by
  have htags' := (openTags_concat events e).trans hnest
  cases h with
  | start htags ht => exact .start (htags'.trans htags) (htitle.trans ht)
  | opened h htags ht => exact .opened h (htags'.trans htags) (htitle.trans ht)
  | finished htags ht => exact .finished (htags'.trans htags) (htitle.trans ht)

/-- All other text is passed over. -/
theorem readText_eq_self (h : Titled s events) {text : String} (ht : ¬ Names events text) :
    s.readText text = s := by
  cases h with
  | start => rfl
  | finished => rfl
  | opened h htags htitle =>
    by_cases hnames : openTags events = ["title", "svg"]
    · have hframes := h.names_eq_iff.1 (htags ▸ hnames)
      rw [hframes, readText_title, if_neg]
      rintro ⟨hempty, htrim⟩
      rw [← htitle, titleOf_eq_empty_iff] at hempty
      exact ht ⟨hnames, htrim, hempty⟩
    · exact h.readText_of_ne (htags ▸ hnames) none text

theorem text (h : Titled s events) (text : String) :
    Titled (s.readText text) (events ++ [.text text]) := by
  by_cases ht : Names events text
  · obtain ⟨hnames, htrim, htexts⟩ := ht
    have htags' := openTags_concat events (.text text)
    have htitle' := titleOf_concat_of_names ⟨hnames, htrim, htexts⟩
    cases h with
    | start htags => simp [htags] at hnames
    | finished htags => simp [htags] at hnames
    | opened h htags htitle =>
      have hframes := h.names_eq_iff.1 (htags ▸ hnames)
      have hempty := htitle.symm.trans ((titleOf_eq_empty_iff events).2 htexts)
      rw [hframes, readText_title, if_pos ⟨hempty, htrim⟩]
      refine .opened (.inside .root rfl fun _ => iff_of_true rfl rfl) ?_ htitle'
      rw [htags', nest, hnames]
      rfl
  · rw [h.readText_eq_self ht]
    exact h.aside rfl (titleOf_concat_of_not_names ht)

theorem step (h : Titled s events) {e : Event} (hs : (s.step e).result = .ok s') :
    Titled s' (events ++ [e]) := by
  cases e with
  | tag t =>
    obtain ⟨kind, name, attributes⟩ := t
    cases kind with
    | opening => exact h.opening name attributes hs
    | empty => exact h.empty name attributes hs
    | closing => exact h.closing name attributes hs
  | malformed fault position => cases hs
  | text text =>
    cases hs
    exact h.text text
  | comment =>
    cases hs
    exact h.aside rfl (titleOf_concat_of_none rfl)
  | declaration =>
    cases hs
    exact h.aside rfl (titleOf_concat_of_none rfl)
  | instruction =>
    cases hs
    exact h.aside rfl (titleOf_concat_of_none rfl)

theorem foldlM {more : List Event} (h : Titled s events)
    (hs : (more.foldlM State.step s).result = .ok s') : Titled s' (events ++ more) := by
  induction more generalizing s events with
  | nil =>
    cases hs
    simpa using h
  | cons e more ih =>
    rw [List.foldlM_cons, result_bind_ok_iff] at hs
    obtain ⟨t, ht, hs⟩ := hs
    simpa using ih (h.step ht) hs

end Titled

theorem titled_of_foldlM {events : List Event} {s : State}
    (h : (events.foldlM State.step {}).result = .ok s) : Titled s events := by
  have hstart : Titled {} [] := .start rfl rfl
  exact hstart.foldlM h

/-! ## Runs -/

/-- Text that does not name the document can be left out. -/
theorem run_without_text {before : List Event} {text : String} (h : ¬ Names before text)
    (after : List Event) : run (before ++ .text text :: after) = run (before ++ after) := by
  have hfold : Without [] ((before ++ ([Event.text text] ++ after)).foldlM State.step {})
      ((before ++ ([] ++ after)).foldlM State.step {}) := by
    refine .foldlM before [Event.text text] [] after ({} : State) ?_
    intro s hs
    have hself := (titled_of_foldlM hs).readText_eq_self h
    simp only [List.foldlM_cons, State.step, hself, pure_bind]
    exact .refl _
  simp only [run]
  exact congrArg (· >>= State.finish) hfold.eq

theorem title_eq_titleOf {events : List Event} {d : Document}
    (h : (run events).result = .ok d) : d.title = titleOf events := by
  obtain ⟨s, hs, hf⟩ := result_bind_ok_iff.1 h
  cases titled_of_foldlM hs with
  | start => cases hf
  | opened h => cases h <;> cases hf
  | finished htags htitle =>
    cases hf
    exact htitle.symm

/-- The title of a document is the first text, with the blanks around it left out and its entities
decoded, that is not blank and stands in a title directly under the root; without such a text it is
empty. No other text changes anything. -/
theorem run_title_eq {events : List Event} {d : Document} (h : (run events).result = .ok d) :
    (∀ before text after, events = before ++ .text text :: after → Names before text →
      d.title = String.ofList (Markup.Entity.decode (Text.trim text.toList))) ∧
    ((∀ before text after, events = before ++ .text text :: after → ¬ Names before text) →
      d.title = "") ∧
    ∀ before text after, events = before ++ .text text :: after → ¬ Names before text →
      run (before ++ after) = run events := by
  rw [title_eq_titleOf h]
  refine ⟨?_, ?_, ?_⟩
  · rintro before text after rfl hnames
    rw [titleOf_of_names hnames]
  · intro hnone
    exact (titleOf_eq_empty_iff events).2 (titleTexts_eq_nil hnone)
  · rintro before text after rfl hnames
    exact (run_without_text hnames after).symm

/-- A title of a group and a blank come before the title, other texts after it. -/
def beforeTitle : List Event :=
  [.tag ⟨.opening, "svg", []⟩, .tag ⟨.opening, "g", []⟩, .tag ⟨.opening, "title", []⟩,
    .text "Layer", .tag ⟨.closing, "title", []⟩, .tag ⟨.closing, "g", []⟩,
    .tag ⟨.opening, "title", []⟩, .text " ", .tag ⟨.empty, "desc", []⟩]

def afterTitle : List Event :=
  [.text "more", .tag ⟨.closing, "title", []⟩, .tag ⟨.opening, "title", []⟩, .text "Later",
    .tag ⟨.closing, "title", []⟩, .tag ⟨.closing, "svg", []⟩]

theorem run_title_eq_later :
    ∃ d, (run (beforeTitle ++ .text " Note &amp; Tag " :: afterTitle)).result = .ok d ∧
      d.title = "Note & Tag" := by
  have hnone : (run (beforeTitle ++ .text " Note &amp; Tag " :: afterTitle)).error? = none := by
    decide +kernel
  obtain ⟨d, hd⟩ := Outcome.error?_eq_none_iff.1 hnone
  have hnames : Names beforeTitle " Note &amp; Tag " := by
    refine ⟨?_, ?_, ?_⟩ <;> decide +kernel
  have hdecoded : String.ofList (Markup.Entity.decode (Text.trim " Note &amp; Tag ".toList)) =
      "Note & Tag" := by
    decide +kernel
  exact ⟨d, hd, ((run_title_eq hd).1 _ _ _ rfl hnames).trans hdecoded⟩

end IconCode.Reader

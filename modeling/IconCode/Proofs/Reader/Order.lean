import IconCode.Proofs.Reader.Nesting
import IconCode.Proofs.Reader.Precedence
import IconCode.Proofs.Reader.Unread

/-!
# Attributes in any order

The attributes of a tag come without an order of their own, and they are looked at in the order of
their names. So a tag is read to the same however they come, and if values are malformed, the first
by name decides on the error and on what is reported before it.

* `ordered_perm`: attributes of different names in another order.
* `Outcome.foldlM_of_fault`: a run that ends at the first fault.
* `State.exists_gatherAll`: what entering an element does with its attributes.
* `State.enter_perm`: entering an element, with its attributes in any order.
-/

namespace IconCode

/-! ## Runs up to a fault -/

namespace Outcome

variable {σ α : Type} {step : σ → α → Outcome σ} {fault? : α → Option ReadError}
  {reports : α → List Diagnostic}

/-- If the error of a step and its reports depend on the element alone, a run without faults reports
what its elements do. -/
theorem diagnostics_foldlM (herror : ∀ s a, (step s a).error? = fault? a)
    (hreports : ∀ s a, (step s a).diagnostics = reports a) {xs : List α}
    (h : ∀ x ∈ xs, fault? x = none) (s : σ) :
    (xs.foldlM step s).diagnostics = xs.flatMap reports := by
  induction xs generalizing s with
  | nil => rfl
  | cons x xs ih =>
    rw [List.forall_mem_cons] at h
    obtain ⟨t, ht⟩ := error?_eq_none_iff.1 ((herror s x).trans h.1)
    rw [List.foldlM_cons, bind_of_ok ht, hreports, ih h.2, List.flatMap_cons]

/-- A run ends at the first element with a fault, after the reports of that element. -/
theorem foldlM_of_fault (herror : ∀ s a, (step s a).error? = fault? a)
    (hreports : ∀ s a, (step s a).diagnostics = reports a) {before after : List α} {x : α}
    {e : ReadError} (hbefore : ∀ b ∈ before, fault? b = none) (hx : fault? x = some e) (s : σ) :
    (before ++ x :: after).foldlM step s = ⟨(before ++ [x]).flatMap reports, .error e⟩ := by
  have hnone : (before.foldlM step s).error? = none := by
    rw [error?_foldlM herror, List.findSome?_eq_none_iff]
    exact hbefore
  obtain ⟨t, ht⟩ := error?_eq_none_iff.1 hnone
  have hfail : (step t x).result = .error e := error?_eq_some_iff.1 ((herror t x).trans hx)
  rw [List.foldlM_append, bind_of_ok ht, List.foldlM_cons, bind_of_error hfail,
    diagnostics_foldlM herror hreports hbefore, hreports, List.flatMap_append,
    List.flatMap_singleton]

end Outcome

namespace Reader

open Markup (Attribute Tag TagKind)

/-! ## Order -/

theorem insert_perm {a : Attribute} {sorted : List Attribute}
    (h : a.name ∉ sorted.map (·.name)) : (insert a sorted).Perm (a :: sorted) := by
  induction sorted with
  | nil => exact .refl _
  | cons b rest ih =>
    rw [List.map_cons, List.mem_cons, not_or] at h
    rcases lt_or_eq_or_gt a b with hab | hab | hab
    · rw [insert_of_lt hab]
    · exact absurd hab h.1
    · rw [insert_of_gt hab]
      exact ((ih h.2).cons b).trans (.swap a b rest)

theorem foldl_insert_perm {attributes sorted : List Attribute}
    (h : ((attributes ++ sorted).map (·.name)).Nodup) :
    (attributes.foldl (fun sorted a => insert a sorted) sorted).Perm (attributes ++ sorted) := by
  induction attributes generalizing sorted with
  | nil => exact .refl _
  | cons a attributes ih =>
    rw [List.cons_append, List.map_cons, List.nodup_cons] at h
    have hnew : a.name ∉ sorted.map (·.name) := by
      intro ha
      rw [List.map_append] at h
      exact h.1 (List.mem_append_right _ ha)
    have hmove : (attributes ++ insert a sorted).Perm (a :: (attributes ++ sorted)) :=
      ((insert_perm hnew).append_left attributes).trans List.perm_middle
    have hnames : ((attributes ++ insert a sorted).map (·.name)).Nodup := by
      rw [(hmove.map _).nodup_iff]
      exact List.nodup_cons.2 h
    exact (ih hnames).trans hmove

/-- Attributes of different names are all there, in the order of their names. -/
theorem ordered_perm_self {attributes : List Attribute}
    (h : (attributes.map (·.name)).Nodup) : (ordered attributes).Perm attributes := by
  rw [← List.append_nil attributes] at h
  have hfold := foldl_insert_perm h
  rwa [List.append_nil] at hfold

/-- There is one order in which the names increase. -/
theorem Sorted.eq_of_perm {xs ys : List Attribute} (hx : Sorted xs) (hy : Sorted ys)
    (h : xs.Perm ys) : xs = ys := by
  refine List.Perm.eq_of_pairwise ?_ hx hy h
  intro a b _ _ hab hba
  exact absurd (String.lt_trans hab hba) (String.lt_irrefl _)

theorem ordered_perm {attributes others : List Attribute}
    (hnames : (attributes.map (·.name)).Nodup) (h : others.Perm attributes) :
    ordered others = ordered attributes := by
  have hothers : (others.map (·.name)).Nodup := (h.map _).nodup_iff.2 hnames
  refine (sorted_ordered others).eq_of_perm (sorted_ordered attributes) ?_
  exact (ordered_perm_self hothers).trans (h.trans (ordered_perm_self hnames).symm)

theorem gatherAll_perm {σ : Type} (element : String) (own : Vocabulary σ) (start : σ)
    {attributes others : List Attribute} (hnames : (attributes.map (·.name)).Nodup)
    (h : others.Perm attributes) :
    gatherAll element own start others = gatherAll element own start attributes := by
  rw [gatherAll, gatherAll, ordered_perm hnames h]

/-! ## Reports -/

/-- What a value of a kind reports: a block what its clauses report, other values nothing. -/
def ValueKind.reports : ValueKind → List Char → List Diagnostic
  | .block, value => (Style.ofBlock value).diagnostics
  | _, _ => []

/-- What is reported of an attribute. -/
def Owner.reports (o : Owner) (element : String) (a : Attribute) : List Diagnostic :=
  ((o.kind? a.name).map (·.reports a.value.toList)).getD (attributeReports element a)

/-- No element has blocks among its own attributes. -/
theorem Owner.reports_of_lookup {o : Owner} {name : String} {k : ValueKind}
    (h : o.kinds.lookup name = some k) (value : List Char) : k.reports value = [] := by
  have hother : ∀ entry ∈ o.kinds, entry.2 ≠ .block := by
    cases o with
    | root => decide
    | group => decide
    | shape s => cases s <;> decide
  obtain ⟨front, back, hsplit, -⟩ := List.lookup_eq_some_iff.1 h
  have hne : k ≠ .block := hother (name, k) (by rw [hsplit]; simp)
  cases k <;> first | rfl | exact absurd rfl hne

theorem diagnostics_gather_paint {σ : Type} {own : Vocabulary σ} {a : Attribute}
    (hown : own a.name = none) (element : String) (state : σ × Style) :
    (gather element own state a).diagnostics =
      ((Owner.paintKind? a.name).map (·.reports a.value.toList)).getD
        (attributeReports element a) := by
  cases hpaint : Owner.paintKind? a.name with
  | none =>
    rw [gather_of_unread hown hpaint]
    rfl
  | some k =>
    unfold Owner.paintKind? at hpaint
    unfold gather
    simp only [hown]
    split at hpaint
    · rename_i p hp
      cases hpaint
      have hname : a.name = p.name := Property.ofName?_eq_some_iff.1 hp
      simp only [declare?_of_property hname, ← map_eq_pure_bind, Outcome.diagnostics_map]
      rfl
    · split at hpaint
      · rename_i hs
        cases hpaint
        simp only [declare?_of_style hs, ← map_eq_pure_bind, Outcome.diagnostics_map]
        rfl
      · cases hpaint

theorem diagnostics_gather {σ : Type} {own : Vocabulary σ} {o : Owner} (h : Takes own o.kinds)
    (element : String) (state : σ × Style) (a : Attribute) :
    (gather element own state a).diagnostics = o.reports element a := by
  unfold Owner.reports Owner.kind?
  cases hkind : o.kinds.lookup a.name with
  | none => rw [diagnostics_gather_paint (h.eq_none state.1 hkind), Option.none_or]
  | some k =>
    have hset := h a.name state.1 a.value.toList
    rw [hkind] at hset
    cases hown : own a.name with
    | none => simp [hown] at hset
    | some set =>
      simp only [gather, hown, ← map_eq_pure_bind, Outcome.diagnostics_map]
      exact (Owner.reports_of_lookup hkind _).symm

/-! ## Elements -/

theorem exists_gatherAll_read (shape : ShapeName) :
    ∃ (σ : Type) (vocabulary : Vocabulary σ) (start : σ) (geometry : σ → Shape),
      Takes vocabulary (Owner.shape shape).kinds ∧ ∀ attributes, shape.read attributes =
        ShapeName.read.finish geometry (gatherAll shape.text vocabulary start attributes) := by
  cases shape with
  | rect => exact ⟨_, _, _, _, takes_rounded, fun _ => rfl⟩
  | circle => exact ⟨_, _, _, _, takes_circle, fun _ => rfl⟩
  | ellipse => exact ⟨_, _, _, _, takes_ellipse, fun _ => rfl⟩
  | line => exact ⟨_, _, _, _, takes_segment, fun _ => rfl⟩
  | polygon => exact ⟨_, _, _, _, takes_points, fun _ => rfl⟩
  | polyline => exact ⟨_, _, _, _, takes_points, fun _ => rfl⟩
  | path => exact ⟨_, _, _, _, takes_path, fun _ => rfl⟩

namespace State

/-- What is done with the gathered attributes of an element: nothing is reported, and nothing but a
missing root is an error. -/
structure Concludes {τ : Type} (conclude : τ → Outcome (State × Content)) : Prop where
  diagnostics : ∀ x, (conclude x).diagnostics = []
  error : ∀ x e, (conclude x).result = .error e → e = .invalidMarkup .outsideRoot

theorem concludes_pure {τ : Type} (f : τ → State × Content) :
    Concludes fun x => (pure (f x) : Outcome _) := by
  constructor
  · intro x
    rfl
  · intro x e h
    cases h

theorem concludes_requireParent {τ : Type} (frames : List Frame)
    (f : τ → Layer → State × Content) :
    Concludes fun x => requireParent frames >>= fun parent => pure (f x parent) := by
  unfold requireParent
  cases parent? frames with
  | some l => exact concludes_pure fun x => f x l
  | none =>
    constructor
    · intro x
      rfl
    · intro x e h
      cases h
      rfl

/-- Entering an element whose attributes are read is gathering them and doing something with what
was gathered. -/
theorem exists_gatherAll {s : State} {t : Tag} {o : Owner} (ho : s.owner? t = some o) :
    ∃ (σ : Type) (vocabulary : Vocabulary σ) (start : σ)
      (conclude : σ × Style → Outcome (State × Content)),
      Takes vocabulary o.kinds ∧ Concludes conclude ∧ ∀ attributes,
        s.enter t.name attributes = gatherAll t.name vocabulary start attributes >>= conclude := by
  unfold owner? at ho
  unfold enter
  split at ho
  · cases ho
  split at ho
  · rename_i hempty
    split at ho
    · rename_i hroot
      cases ho
      have hopen : ¬ s.finished.isSome = true := by simpa using hroot.1
      refine ⟨_, Canvas.vocabulary, {}, _, takes_canvas, concludes_pure fun x =>
        (s, .document { size := x.1.size, viewBox := x.1.shown, style := x.2 }), ?_⟩
      intro attributes
      rw [if_pos hempty, openRoot, if_neg hopen, if_pos hroot.2, hroot.2]
      simp only [rootDocument, Outcome.bind_assoc, Outcome.pure_bind]
    · cases ho
  · rename_i hempty
    split at ho
    · cases ho
    · rename_i hskip
      simp only [if_neg hempty, if_neg hskip]
      unfold Owner.ofName? at ho
      unfold openInside
      cases hr : Role.ofName t.name with
      | group =>
        simp only [hr, Option.some.injEq] at ho
        subst ho
        refine ⟨_, noVocabulary, (), _, takes_nothing, concludes_requireParent s.frames
          fun x parent => (s, .group { style := parent.resolve x.2 }), ?_⟩
        intro attributes
        rw [Role.eq_of_group hr]
        simp only [groupStyle, Outcome.bind_assoc, Outcome.pure_bind]
      | leaf shape =>
        simp only [hr, Option.some.injEq] at ho
        subst ho
        obtain ⟨σ, vocabulary, start, geometry, htakes, hread⟩ := exists_gatherAll_read shape
        refine ⟨σ, vocabulary, start, _, htakes, concludes_requireParent s.frames
          fun x _ => ({ s with frames := onParent (·.append (.leaf (geometry x.1) x.2)) s.frames },
            .passive), ?_⟩
        intro attributes
        simp only [hread, Role.text_of_leaf hr, ShapeName.read.finish, Outcome.bind_assoc,
          Outcome.pure_bind]
      | title => simp [hr] at ho
      | silent => simp [hr] at ho
      | skipped => simp [hr] at ho
      | unknown => simp [hr] at ho

/-- An element whose attributes are not read fails for its place only. -/
theorem enter_error_of_owner?_none {s : State} {name : String} {attributes : List Attribute}
    (h : s.owner? ⟨.opening, name, attributes⟩ = none) {e : ReadError}
    (he : (s.enter name attributes).result = .error e) : ∃ m, e = .invalidMarkup m := by
  rw [owner?, if_neg (by simp)] at h
  by_cases hempty : s.frames.isEmpty = true
  · rw [if_pos hempty] at h
    obtain hm | ⟨hfinished, hname⟩ := enter_root_error (List.isEmpty_iff.1 hempty) he
    · exact hm
    · simp [hfinished, hname] at h
  · rw [if_neg hempty] at h
    rw [enter, if_neg hempty] at he
    split at he
    · cases he
    · rename_i hskip
      rw [if_neg hskip] at h
      unfold Owner.ofName? at h
      unfold openInside at he
      cases hr : Role.ofName name with
      | group => simp [hr] at h
      | leaf shape => simp [hr] at h
      | title => simp [hr] at he
      | silent => simp [hr] at he
      | skipped =>
        simp only [hr] at he
        cases he
      | unknown =>
        simp only [hr] at he
        cases he

end State

/-! ## Malformed values -/

/-- The first of some attributes that has a malformed value, and what stands before it. -/
structure Owner.FailsAt (o : Owner) (attributes before : List Attribute) (a : Attribute)
    (e : ReadError) : Prop where
  split : ∃ after, attributes = before ++ a :: after
  sound : ∀ b ∈ before, o.fault? b = none
  fault : o.fault? a = some e

/-- Either there is a first attribute with a malformed value, or there is none. -/
theorem Owner.failsAt_or (o : Owner) (attributes : List Attribute) :
    (∃ before a e, o.FailsAt attributes before a e) ∨ ∀ a ∈ attributes, o.fault? a = none := by
  induction attributes with
  | nil => exact .inr (by simp)
  | cons a rest ih =>
    cases ha : o.fault? a with
    | some e => exact .inl ⟨[], a, e, ⟨rest, rfl⟩, by simp, ha⟩
    | none =>
      rcases ih with ⟨before, b, e, ⟨after, rfl⟩, hbefore, hb⟩ | hnone
      · exact .inl ⟨a :: before, b, e, ⟨after, rfl⟩, List.forall_mem_cons.2 ⟨ha, hbefore⟩, hb⟩
      · exact .inr (List.forall_mem_cons.2 ⟨ha, hnone⟩)

namespace State

section Gathered

variable {s : State} {name : String} {attributes : List Attribute} {o : Owner}
  (ho : s.owner? ⟨.opening, name, attributes⟩ = some o)

include ho

theorem enter_of_failsAt {before : List Attribute} {a : Attribute} {e : ReadError}
    (h : o.FailsAt (ordered attributes) before a e) :
    s.enter name attributes = ⟨(before ++ [a]).flatMap (o.reports name), .error e⟩ := by
  obtain ⟨σ, vocabulary, start, conclude, htakes, -, henter⟩ := exists_gatherAll ho
  obtain ⟨⟨after, hsplit⟩, hsound, hfault⟩ := h
  rw [henter, gatherAll, hsplit, Outcome.foldlM_of_fault (error?_gather htakes name)
    (diagnostics_gather htakes name) hsound hfault]
  rfl

/-- Without malformed values everything is reported, and there is no error inside a root. -/
theorem enter_of_sound (h : ∀ a ∈ ordered attributes, o.fault? a = none) :
    (s.enter name attributes).diagnostics = (ordered attributes).flatMap (o.reports name) ∧
      ∀ e, (s.enter name attributes).result = .error e → e = .invalidMarkup .outsideRoot := by
  obtain ⟨σ, vocabulary, start, conclude, htakes, hconclude, henter⟩ := exists_gatherAll ho
  have hgather : (gatherAll name vocabulary start attributes).error? = none := by
    rw [error?_gatherAll htakes, List.findSome?_eq_none_iff]
    exact h
  obtain ⟨x, hx⟩ := Outcome.error?_eq_none_iff.1 hgather
  have hreports : (gatherAll name vocabulary start attributes).diagnostics =
      (ordered attributes).flatMap (o.reports name) :=
    Outcome.diagnostics_foldlM (error?_gather htakes name) (diagnostics_gather htakes name) h _
  rw [henter, Outcome.bind_of_ok hx, hreports, hconclude.diagnostics, List.append_nil]
  exact ⟨rfl, hconclude.error x⟩

end Gathered

/-! ## Permutations -/

theorem enter_eq_of_perm {attributes others : List Attribute}
    (hnames : (attributes.map (·.name)).Nodup) (h : others.Perm attributes) (s : State)
    (name : String) : s.enter name others = s.enter name attributes := by
  cases ho : s.owner? ⟨.opening, name, attributes⟩ with
  | none => exact (enter_congr (by decide) ho others).symm
  | some o =>
    obtain ⟨σ, vocabulary, start, conclude, -, -, henter⟩ := exists_gatherAll ho
    rw [henter, henter, gatherAll_perm _ _ _ hnames h]

theorem step_eq_of_perm {attributes others : List Attribute}
    (hnames : (attributes.map (·.name)).Nodup) (h : others.Perm attributes) (s : State)
    (kind : TagKind) (name : String) :
    s.step (.tag ⟨kind, name, others⟩) = s.step (.tag ⟨kind, name, attributes⟩) := by
  have henter := enter_eq_of_perm hnames h s name
  cases kind with
  | opening => rw [step, step, henter]
  | empty => rw [step, step, henter]
  | closing => rfl

/-- A tag with attributes of different names does the same in every state, in whatever order they
come. If it fails, it does so for its place, or for the first malformed value by name; then it has
reported what the attributes up to that one do. Otherwise it reports what all of them do. -/
theorem enter_perm {attributes others : List Attribute}
    (hnames : (attributes.map (·.name)).Nodup) (h : others.Perm attributes) (s : State)
    (name : String) :
    (s.enter name others = s.enter name attributes ∧
      ∀ kind, s.step (.tag ⟨kind, name, others⟩) = s.step (.tag ⟨kind, name, attributes⟩)) ∧
    ∀ sorted : List Attribute, sorted.Perm attributes → Sorted sorted →
      (∀ e, (s.enter name others).result = .error e → (∃ m, e = .invalidMarkup m) ∨
        ∃ o before a, s.owner? ⟨.opening, name, attributes⟩ = some o ∧
          o.FailsAt sorted before a e) ∧
      ∀ o, s.owner? ⟨.opening, name, attributes⟩ = some o →
        (∀ before a e, o.FailsAt sorted before a e →
          s.enter name others = ⟨(before ++ [a]).flatMap (o.reports name), .error e⟩) ∧
        ((∀ a ∈ sorted, o.fault? a = none) →
          (s.enter name others).diagnostics = sorted.flatMap (o.reports name)) := by
  have henter := enter_eq_of_perm hnames h s name
  refine ⟨⟨henter, fun kind => step_eq_of_perm hnames h s kind name⟩, ?_⟩
  intro sorted hperm hsorted
  obtain rfl : sorted = ordered attributes :=
    hsorted.eq_of_perm (sorted_ordered attributes) (hperm.trans (ordered_perm_self hnames).symm)
  rw [henter]
  refine ⟨?_, fun o ho => ⟨fun before a e => enter_of_failsAt ho, fun hsound =>
    (enter_of_sound ho hsound).1⟩⟩
  intro e he
  cases ho : s.owner? ⟨.opening, name, attributes⟩ with
  | none => exact .inl (enter_error_of_owner?_none ho he)
  | some o =>
    rcases o.failsAt_or (ordered attributes) with ⟨before, a, e', hfails⟩ | hsound
    · rw [enter_of_failsAt ho hfails] at he
      cases he
      exact .inr ⟨o, before, a, rfl, hfails⟩
    · exact .inl ⟨_, (enter_of_sound ho hsound).2 e he⟩

/-- The last two of these values are malformed, in the order of the names. -/
def faultyAttributes : List Attribute :=
  [⟨"fill", "red"⟩, ⟨"foo", "1"⟩, ⟨"style", "junk; fill: x"⟩, ⟨"width", "y"⟩]

theorem enter_perm_reversed :
    State.enter { frames := [⟨"svg", .document {}⟩] } "rect" faultyAttributes.reverse =
      ⟨[.unknownAttribute "rect" "foo" "1", .unknownStyleRule "junk"],
        .error (.invalidColor "x")⟩ := by
  have hsorted : Sorted faultyAttributes := by
    unfold Sorted
    decide
  have hfails : Owner.FailsAt (.shape .rect) faultyAttributes
      [⟨"fill", "red"⟩, ⟨"foo", "1"⟩] ⟨"style", "junk; fill: x"⟩ (.invalidColor "x") :=
    ⟨⟨_, rfl⟩, by decide +kernel, by decide +kernel⟩
  have hpermuted := (enter_perm (by decide) (List.reverse_perm faultyAttributes)
    { frames := [⟨"svg", .document {}⟩] } "rect").2 faultyAttributes (.refl _) hsorted
  rw [(hpermuted.2 (.shape .rect) rfl).1 _ _ _ hfails]
  exact Outcome.ext (by decide +kernel) rfl

end State

end Reader

end IconCode

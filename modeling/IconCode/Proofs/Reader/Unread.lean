import IconCode.Proofs.Paint.Block
import IconCode.Proofs.Reader.Attributes
import IconCode.Proofs.Reader.Values

/-!
# What is not read of a tag

An attribute that an element does not understand is reported at most, and so is a clause of its
style block that says nothing. Without it, the tag is read to the same.

* `gathersWithout_attribute`: attributes without one that is not understood.
* `gathersWithout_clause`: attributes with a shorter block.
* `step_congr`: nothing is read of a tag that has no owner.
* `step_without`: otherwise it is read as its attributes are gathered.
-/

namespace IconCode.Reader

open Markup (Attribute Event Tag TagKind)
open Outcome (Without)

/-- Attributes of an element give way to others: however they are gathered, that comes to the same
with fewer diagnostics. -/
def GathersWithout (o : Owner) (element : String) (own : List Diagnostic)
    (attributes others : List Attribute) : Prop :=
  ∀ (σ : Type) (vocabulary : Vocabulary σ) (start : σ), Takes vocabulary o.kinds →
    Without own (gatherAll element vocabulary start attributes)
      (gatherAll element vocabulary start others)

theorem Takes.eq_none {σ : Type} {vocabulary : Vocabulary σ} {kinds : List (String × ValueKind)}
    (h : Takes vocabulary kinds) (state : σ) {name : String} (hn : kinds.lookup name = none) :
    vocabulary name = none := by
  have hname := h name state []
  rwa [hn, Option.map_none, Option.map_eq_none_iff] at hname

/-! ## Attributes that are not understood -/

/-- What is reported of an attribute that is not understood. -/
def attributeReports (element : String) (a : Attribute) : List Diagnostic :=
  if isIgnored a.name then [] else [.unknownAttribute element a.name a.value]

/-- What is reported of a name that is not understood. -/
def nameReports (element name : String) (attributes : List Attribute) : List Diagnostic :=
  ((ordered attributes).filter (·.name = name)).flatMap (attributeReports element)

theorem gather_of_unread {σ : Type} {vocabulary : Vocabulary σ} {a : Attribute}
    (hown : vocabulary a.name = none) (hpaint : Owner.paintKind? a.name = none) (element : String)
    (state : σ × Style) :
    gather element vocabulary state a = ⟨attributeReports element a, .ok state⟩ := by
  have hdeclare : declare? state.2 a = none := by
    unfold Owner.paintKind? at hpaint
    split at hpaint
    · cases hpaint
    · rename_i hproperty
      split at hpaint
      · cases hpaint
      · rename_i hstyle
        exact declare?_eq_none hproperty hstyle
  simp only [gather, hown, hdeclare, attributeReports]
  split <;> rfl

theorem without_eq_self {name : String} {attributes : List Attribute}
    (h : ∀ a ∈ attributes, a.name ≠ name) : without name attributes = attributes :=
  List.filter_eq_self.2 fun a ha => decide_eq_true (h a ha)

theorem filter_name_eq_nil {name : String} {attributes : List Attribute}
    (h : ∀ a ∈ attributes, a.name ≠ name) : attributes.filter (·.name = name) = [] :=
  List.filter_eq_nil_iff.2 fun a ha => by simpa using h a ha

theorem gathersWithout_attribute {o : Owner} {name : String} (h : o.kind? name = none)
    (element : String) (attributes : List Attribute) :
    GathersWithout o element (nameReports element name attributes) attributes
      (without name attributes) := by
  intro σ vocabulary start htakes
  obtain ⟨hkinds, hpaint⟩ := Option.or_eq_none_iff.1 h
  have hown := htakes.eq_none start hkinds
  unfold gatherAll nameReports
  rw [ordered_filter]
  by_cases hname : ∃ a ∈ ordered attributes, a.name = name
  · obtain ⟨a, ha, rfl⟩ := hname
    obtain ⟨before, after, hsplit, hne⟩ := (sorted_ordered attributes).exists_split ha
    rw [List.forall_mem_append] at hne
    have hrest : without a.name (before ++ a :: after) = before ++ ([] ++ after) := by
      rw [without, List.filter_append, List.filter_cons_of_neg (by simp)]
      change without a.name before ++ without a.name after = _
      rw [without_eq_self hne.1, without_eq_self hne.2]
      rfl
    have hself : (before ++ a :: after).filter (fun x => x.name = a.name) = [a] := by
      rw [List.filter_append, List.filter_cons_of_pos (by simp), filter_name_eq_nil hne.1,
        filter_name_eq_nil hne.2]
      rfl
    rw [hsplit, hrest, hself]
    refine Without.foldlM before [a] [] after _ ?_
    intro state _
    rw [List.foldlM_cons, gather_of_unread hown hpaint]
    exact .reported [] [] (by simp [Outcome.bind_of_ok, pure, Outcome.pure]) rfl rfl
  · have hne : ∀ a ∈ ordered attributes, a.name ≠ name := fun a ha heq => hname ⟨a, ha, heq⟩
    rw [without_eq_self hne, filter_name_eq_nil hne]
    exact .refl _

/-! ## Clauses that say nothing -/

/-- The attributes with another style block. -/
def withBlock (block : String) (attributes : List Attribute) : List Attribute :=
  attributes.map fun a => if a.name = "style" then { a with value := block } else a

theorem withBlock_eq_self {block : String} {attributes : List Attribute}
    (h : ∀ a ∈ attributes, a.name ≠ "style") : withBlock block attributes = attributes := by
  unfold withBlock
  rw [List.map_congr_left fun a ha => if_neg (h a ha), List.map_id']

theorem ordered_withBlock (block : String) (attributes : List Attribute) :
    ordered (withBlock block attributes) = withBlock block (ordered attributes) := by
  refine ordered_map ?_ attributes
  intro a
  split <;> rfl

theorem Owner.lookup_style (o : Owner) : o.kinds.lookup "style" = none := by
  cases o with
  | root => decide
  | group => rfl
  | shape s => cases s <;> decide

/-- Of two blocks, the one declares what the other one does. -/
theorem gather_style_without {σ : Type} {vocabulary : Vocabulary σ}
    (hown : vocabulary "style" = none) {own : List Diagnostic} {block other : String}
    (h : Without own (Style.ofBlock block.toList) (Style.ofBlock other.toList)) (element : String)
    (state : σ × Style) :
    Without own (gather element vocabulary state ⟨"style", block⟩)
      (gather element vocabulary state ⟨"style", other⟩) := by
  have hproperty : Property.ofName? "style" = none := by decide
  simp only [gather, hown, declare?, hproperty, if_true]
  exact (h.bind _).bind _

theorem gathersWithout_block (o : Owner) {own : List Diagnostic} {block other : String}
    (h : Without own (Style.ofBlock block.toList) (Style.ofBlock other.toList)) (element : String)
    {attributes : List Attribute} (hmem : ⟨"style", block⟩ ∈ ordered attributes) :
    GathersWithout o element own attributes (withBlock other attributes) := by
  intro σ vocabulary start htakes
  have hown := htakes.eq_none start o.lookup_style
  obtain ⟨before, after, hsplit, hne⟩ := (sorted_ordered attributes).exists_split hmem
  rw [List.forall_mem_append] at hne
  have hother : withBlock other (before ++ ⟨"style", block⟩ :: after) =
      before ++ ([⟨"style", other⟩] ++ after) := by
    rw [withBlock, List.map_append, List.map_cons, if_pos rfl]
    change withBlock other before ++ ⟨"style", other⟩ :: withBlock other after = _
    rw [withBlock_eq_self hne.1, withBlock_eq_self hne.2]
    rfl
  unfold gatherAll
  rw [ordered_withBlock, hsplit, hother]
  refine Without.foldlM before [⟨"style", block⟩] [⟨"style", other⟩] after _ ?_
  intro state _
  rw [List.foldlM_cons, List.foldlM_cons]
  exact (gather_style_without hown h element state).bind _

/-- The text of clauses between semicolons. -/
def blockText (clauses : List (List Char)) : String := String.ofList ([';'].intercalate clauses)

theorem gathersWithout_clause (o : Owner) (element : String) {attributes : List Attribute}
    {block : String} (hmem : ⟨"style", block⟩ ∈ ordered attributes) {clause : List Char}
    {front back : List (List Char)}
    (hblock : Text.pieces ';' block.toList = front ++ clause :: back)
    (h : Style.SaysNothing clause) :
    GathersWithout o element (Style.clauseReports clause) attributes
      (withBlock (blockText (front ++ back)) attributes) := by
  have hwithout := Style.ofBlock_without hblock h
  rw [← String.toList_ofList (l := [';'].intercalate (front ++ back))] at hwithout
  exact gathersWithout_block o hwithout element hmem

/-! ## Elements -/

section Elements

variable {own : List Diagnostic} {attributes others : List Attribute}

theorem rootDocument_without (h : GathersWithout .root "svg" own attributes others) :
    Without own (rootDocument attributes) (rootDocument others) :=
  (h _ _ _ takes_canvas).bind _

theorem groupStyle_without (h : GathersWithout .group "g" own attributes others) :
    Without own (groupStyle attributes) (groupStyle others) :=
  (h _ _ _ takes_nothing).bind _

theorem read_without {name : ShapeName}
    (h : GathersWithout (.shape name) name.text own attributes others) :
    Without own (name.read attributes) (name.read others) := by
  cases name with
  | rect => exact (h _ _ _ takes_rounded).bind _
  | circle => exact (h _ _ _ takes_circle).bind _
  | ellipse => exact (h _ _ _ takes_ellipse).bind _
  | line => exact (h _ _ _ takes_segment).bind _
  | polygon => exact (h _ _ _ takes_points).bind _
  | polyline => exact (h _ _ _ takes_points).bind _
  | path => exact (h _ _ _ takes_path).bind _

end Elements

/-! ## Names -/

theorem Role.ofName_of_ne {name : String} (hg : name ≠ "g")
    (hshape : ShapeName.ofText? name = none) :
    ofName name = .title ∨ ofName name = .silent ∨ ofName name = .skipped ∨
      ofName name = .unknown := by
  simp only [ofName, hg, if_false, hshape]
  split
  · exact .inl rfl
  · split
    · exact .inr (.inl rfl)
    · split
      · exact .inr (.inr (.inl rfl))
      · exact .inr (.inr (.inr rfl))

theorem Role.eq_of_group {name : String} (h : ofName name = .group) : name = "g" := by
  by_cases hg : name = "g"
  · exact hg
  · cases hshape : ShapeName.ofText? name with
    | some shape => simp [ofName, hg, hshape] at h
    | none => rcases ofName_of_ne hg hshape with hr | hr | hr | hr <;> simp [hr] at h

theorem Role.text_of_leaf {name : String} {shape : ShapeName} (h : ofName name = .leaf shape) :
    shape.text = name := by
  by_cases hg : name = "g"
  · simp [ofName, hg] at h
  · cases hshape : ShapeName.ofText? name with
    | none => rcases ofName_of_ne hg hshape with hr | hr | hr | hr <;> simp [hr] at h
    | some s =>
      simp only [ofName, hg, if_false, hshape, Role.leaf.injEq] at h
      subst h
      have htext := List.find?_some hshape
      exact beq_iff_eq.1 htext

/-! ## Tags -/

namespace State

/-- Whose attributes are read of a tag in a state. -/
def owner? (s : State) (t : Tag) : Option Owner :=
  if t.kind = .closing then none
  else if s.frames.isEmpty then
    if s.finished.isNone ∧ t.name = "svg" then some .root else none
  else if isSkipping s.frames then none
  else Owner.ofName? t.name

section Enter

variable {s : State} {kind : TagKind} {name : String} {attributes others : List Attribute}

theorem openInside_congr (h : Owner.ofName? name = none) :
    s.openInside name attributes = s.openInside name others := by
  unfold Owner.ofName? at h
  unfold openInside
  cases hr : Role.ofName name with
  | group => simp [hr] at h
  | leaf shape => simp [hr] at h
  | title => rfl
  | silent => rfl
  | skipped => rfl
  | unknown => rfl

theorem openInside_without {o : Owner} {own : List Diagnostic} (ho : Owner.ofName? name = some o)
    (h : GathersWithout o name own attributes others) :
    Without own (s.openInside name attributes) (s.openInside name others) := by
  unfold Owner.ofName? at ho
  unfold openInside
  cases hr : Role.ofName name with
  | group =>
    simp only [hr, Option.some.injEq] at ho
    subst ho
    rw [Role.eq_of_group hr] at h
    exact (groupStyle_without h).bind _
  | leaf shape =>
    simp only [hr, Option.some.injEq] at ho
    subst ho
    rw [← Role.text_of_leaf hr] at h
    exact (read_without h).bind _
  | title => simp [hr] at ho
  | silent => simp [hr] at ho
  | skipped => simp [hr] at ho
  | unknown => simp [hr] at ho

theorem openRoot_congr (h : ¬ (s.finished.isNone = true ∧ name = "svg")) :
    s.openRoot name attributes = s.openRoot name others := by
  unfold openRoot
  by_cases hfinished : s.finished.isSome = true
  · simp [hfinished]
  · have hname : name ≠ "svg" := fun hname => h ⟨by simpa using hfinished, hname⟩
    simp [hname]

theorem openRoot_without {own : List Diagnostic} (hs : s.finished.isNone = true)
    (h : GathersWithout .root "svg" own attributes others) :
    Without own (s.openRoot "svg" attributes) (s.openRoot "svg" others) := by
  have hfinished : ¬ s.finished.isSome = true := by simpa using hs
  unfold openRoot
  rw [if_neg hfinished, if_neg hfinished, if_pos rfl, if_pos rfl]
  exact (rootDocument_without h).bind _

theorem enter_congr (hk : kind ≠ .closing) (h : s.owner? ⟨kind, name, attributes⟩ = none)
    (others : List Attribute) : s.enter name attributes = s.enter name others := by
  rw [owner?, if_neg hk] at h
  unfold enter
  by_cases hempty : s.frames.isEmpty = true
  · rw [if_pos hempty] at h
    rw [if_pos hempty, if_pos hempty]
    split at h
    · cases h
    · rename_i hroot
      rw [openRoot_congr hroot]
  · rw [if_neg hempty] at h
    rw [if_neg hempty, if_neg hempty]
    split at h
    · rename_i hskip
      rw [if_pos hskip, if_pos hskip]
    · rename_i hskip
      rw [if_neg hskip, if_neg hskip, openInside_congr h]

theorem enter_without {o : Owner} {own : List Diagnostic} (hk : kind ≠ .closing)
    (ho : s.owner? ⟨kind, name, attributes⟩ = some o)
    (h : GathersWithout o name own attributes others) :
    Without own (s.enter name attributes) (s.enter name others) := by
  rw [owner?, if_neg hk] at ho
  unfold enter
  by_cases hempty : s.frames.isEmpty = true
  · rw [if_pos hempty] at ho
    rw [if_pos hempty, if_pos hempty]
    split at ho
    · rename_i hroot
      obtain ⟨hfinished, rfl⟩ := hroot
      cases ho
      exact (openRoot_without hfinished h).bind _
    · cases ho
  · rw [if_neg hempty] at ho
    rw [if_neg hempty, if_neg hempty]
    split at ho
    · cases ho
    · rename_i hskip
      rw [if_neg hskip, if_neg hskip]
      exact openInside_without ho h

/-- Nothing but the name counts of a tag without an owner. -/
theorem step_congr (h : s.owner? ⟨kind, name, attributes⟩ = none) (others : List Attribute) :
    s.step (.tag ⟨kind, name, attributes⟩) = s.step (.tag ⟨kind, name, others⟩) := by
  cases kind with
  | opening =>
    have henter := enter_congr (by decide) h others
    rw [step, step, henter]
  | empty =>
    have henter := enter_congr (by decide) h others
    rw [step, step, henter]
  | closing => rfl

theorem step_without {o : Owner} {own : List Diagnostic}
    (ho : s.owner? ⟨kind, name, attributes⟩ = some o)
    (h : GathersWithout o name own attributes others) :
    Without own (s.step (.tag ⟨kind, name, attributes⟩)) (s.step (.tag ⟨kind, name, others⟩)) := by
  cases kind with
  | opening => exact (enter_without (by decide) ho h).bind _
  | empty => exact (enter_without (by decide) ho h).bind _
  | closing => cases ho

end Enter

end State

end IconCode.Reader

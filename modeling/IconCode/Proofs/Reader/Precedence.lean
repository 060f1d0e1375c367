import Mathlib.Data.List.Find
import Mathlib.Data.List.Induction
import Mathlib.Data.List.Nodup
import IconCode.Proofs.Paint.Fields
import IconCode.Proofs.Reader.Values

/-!
# Blocks over attributes

A property's own attribute goes underneath what is already declared and a block on top of it. So the
order in which the attributes of an element come makes no difference: a property has the value that
the block sets for it, or else the value of its own attribute.

* `foldlM_addDeclared`: what attributes of different names declare, in closed form.
* `foldlM_addDeclared_perm`: so it is in every order of them.
-/

namespace IconCode

namespace Reader

open Markup (Attribute)

/-! ## Single attributes -/

theorem declare?_of_property {a : Attribute} {p : Property} (hp : a.name = p.name) (style : Style) :
    declare? style a =
      some ((·.merge style) <$> Outcome.ofExcept (p.declare a.value.toList)) := by
  rw [declare?, Property.ofName?_eq_some_iff.2 hp]
  simp only [map_eq_pure_bind]

theorem declare?_of_style {a : Attribute} (hs : a.name = "style") (style : Style) :
    declare? style a = some (style.merge <$> Style.ofBlock a.value.toList) := by
  have hp : Property.ofName? a.name = none :=
    Property.ofName?_eq_none_iff.2 fun p => hs ▸ p.name_ne_style.symm
  rw [declare?, hp, map_eq_pure_bind]
  simp only [if_pos hs]

/-- The style with what an attribute declares, be it about paint or not. -/
def addDeclared (style : Style) (a : Attribute) : Outcome Style :=
  (declare? style a).getD (pure style)

theorem addDeclared_of_property {a : Attribute} {p : Property} {x : p.Value} (hp : a.name = p.name)
    (hx : p.read a.value.toList = .ok x) (style : Style) :
    addDeclared style a = pure ((Style.only p x).merge style) := by
  rw [addDeclared, declare?_of_property hp, Property.declare_eq, hx]
  rfl

theorem addDeclared_of_style {a : Attribute} (hs : a.name = "style") (style : Style) :
    addDeclared style a = style.merge <$> Style.ofBlock a.value.toList := by
  rw [addDeclared, declare?_of_style hs, Option.getD_some]

theorem addDeclared_of_other {a : Attribute} (hp : ∀ p : Property, a.name ≠ p.name)
    (hs : a.name ≠ "style") (style : Style) : addDeclared style a = pure style := by
  rw [addDeclared, declare?_eq_none (Property.ofName?_eq_none_iff.2 hp) hs]
  rfl

/-- A property's attribute that is not malformed has a value. -/
theorem exists_read {a : Attribute} {p : Property} (hp : a.name = p.name)
    (h : Owner.group.fault? a = none) : ∃ x, p.read a.value.toList = .ok x := by
  have hkind : Owner.group.kind? a.name = some (.paint p) := by
    rw [Owner.kind?, Owner.paintKind?, Property.ofName?_eq_some_iff.2 hp]
    rfl
  rw [Owner.fault?, hkind, Option.bind_some] at h
  obtain ⟨t, ht⟩ := Outcome.error?_eq_none_iff.1 h
  change p.declare a.value.toList = .ok t at ht
  rw [Property.declare_eq, map_ok_iff] at ht
  obtain ⟨x, hx, -⟩ := ht
  exact ⟨x, hx⟩

/-! ## Attributes by name -/

/-- The attribute of a name. -/
def attribute? (name : String) (attributes : List Attribute) : Option Attribute :=
  attributes.find? (·.name = name)

section Concat

variable {a : Attribute} {attributes : List Attribute}

theorem attribute?_eq_none {name : String} (h : name ∉ attributes.map (·.name)) :
    attribute? name attributes = none := by
  rw [attribute?, List.find?_eq_none]
  intro b hb
  rw [decide_eq_true_eq]
  rintro rfl
  exact h (List.mem_map_of_mem hb)

theorem attribute?_eq_some {name : String} (h : attribute? name attributes = some a) :
    a ∈ attributes ∧ a.name = name := by
  rw [attribute?] at h
  have hname := List.find?_some h
  exact ⟨List.mem_of_find?_eq_some h, of_decide_eq_true hname⟩

theorem attribute?_concat_self (h : a.name ∉ attributes.map (·.name)) :
    attribute? a.name (attributes ++ [a]) = some a := by
  have hnone := attribute?_eq_none h
  rw [attribute?] at hnone
  simp [attribute?, List.find?_append, hnone]

theorem attribute?_concat_of_ne {name : String} (h : a.name ≠ name) :
    attribute? name (attributes ++ [a]) = attribute? name attributes := by
  simp [attribute?, List.find?_append, h]

/-- Of attributes with different names the same one is found in every order. -/
theorem attribute?_perm {others : List Attribute} (hnames : (attributes.map (·.name)).Nodup)
    (h : others.Perm attributes) (name : String) :
    attribute? name others = attribute? name attributes := by
  refine (List.find?_eq_find?_of_perm h.symm ?_).symm
  rintro b ⟨hb, hbname⟩ c ⟨hc, hcname⟩
  rw [decide_eq_true_eq] at hbname hcname
  exact List.inj_on_of_nodup_map hnames hb hc (hbname.trans hcname.symm)

/-! ## What attributes declare -/

/-- The value of a property's own attribute. -/
def ownValue? (attributes : List Attribute) (p : Property) : Option p.Value :=
  (attribute? p.name attributes).bind fun a => (p.read a.value.toList).toOption

/-- What properties' own attributes declare. -/
def ownStyle (attributes : List Attribute) : Style := .ofValues (ownValue? attributes)

/-- What the block declares. -/
def blockStyle (attributes : List Attribute) : Outcome Style :=
  ((attribute? "style" attributes).map fun a => Style.ofBlock a.value.toList).getD (pure .empty)

theorem ownStyle_concat_of_property {p : Property} {x : p.Value} (hp : a.name = p.name)
    (hx : p.read a.value.toList = .ok x) (h : a.name ∉ attributes.map (·.name)) :
    ownStyle (attributes ++ [a]) = (Style.only p x).merge (ownStyle attributes) := by
  refine Style.ext_value? fun q => ?_
  rw [ownStyle, ownStyle, Style.value?_merge, Style.value?_ofValues, Style.value?_ofValues]
  by_cases hq : p = q
  · subst hq
    rw [ownValue?, ownValue?, ← hp, attribute?_concat_self h, attribute?_eq_none h, Style.value?_only]
    simp [hx, Except.toOption]
  · have hne : a.name ≠ q.name := fun hname => hq (Property.name_injective (hp.symm.trans hname))
    rw [ownValue?, ownValue?, attribute?_concat_of_ne hne, Style.value?_only_of_ne hq, Option.or_none]

theorem ownStyle_concat_of_other (hp : ∀ p : Property, a.name ≠ p.name) :
    ownStyle (attributes ++ [a]) = ownStyle attributes := by
  refine Style.ext_value? fun q => ?_
  rw [ownStyle, ownStyle, Style.value?_ofValues, Style.value?_ofValues, ownValue?, ownValue?,
    attribute?_concat_of_ne (hp q)]

theorem blockStyle_concat_of_ne (hs : a.name ≠ "style") :
    blockStyle (attributes ++ [a]) = blockStyle attributes := by
  rw [blockStyle, blockStyle, attribute?_concat_of_ne hs]

theorem ownStyle_perm {others : List Attribute} (hnames : (attributes.map (·.name)).Nodup)
    (h : others.Perm attributes) : ownStyle others = ownStyle attributes := by
  have hown : ownValue? others = ownValue? attributes :=
    funext fun p => by rw [ownValue?, ownValue?, attribute?_perm hnames h]
  rw [ownStyle, ownStyle, hown]

theorem blockStyle_perm {others : List Attribute} (hnames : (attributes.map (·.name)).Nodup)
    (h : others.Perm attributes) : blockStyle others = blockStyle attributes := by
  rw [blockStyle, blockStyle, attribute?_perm hnames h]

/-- A block without a malformed value declares a style. -/
theorem blockStyle_ok (h : ∀ a ∈ attributes, Owner.group.fault? a = none) :
    ∃ block, (blockStyle attributes).result = .ok block := by
  rw [blockStyle]
  cases ha : attribute? "style" attributes with
  | none => exact ⟨.empty, rfl⟩
  | some a =>
    obtain ⟨hmem, hs⟩ := attribute?_eq_some ha
    have hkind : Owner.group.kind? a.name = some .block := by
      rw [hs]
      rfl
    have hfault := h a hmem
    rw [Owner.fault?, hkind] at hfault
    exact Outcome.error?_eq_none_iff.1 hfault

end Concat

/-- The block counts more than all other attributes, wherever it comes. -/
theorem foldlM_addDeclared {attributes : List Attribute}
    (hnames : (attributes.map (·.name)).Nodup)
    (hvalues : ∀ a ∈ attributes, Owner.group.fault? a = none) :
    attributes.foldlM addDeclared .empty =
      (ownStyle attributes).merge <$> blockStyle attributes := by
  induction attributes using List.reverseRecOn with
  | nil => rfl
  | append_singleton attributes a ih =>
    rw [List.map_append, List.map_singleton, List.nodup_append] at hnames
    obtain ⟨hbefore, -, hdisjoint⟩ := hnames
    have hnew : a.name ∉ attributes.map (·.name) := fun ha => hdisjoint _ ha _ (by simp) rfl
    have hrun := ih hbefore fun b hb => hvalues b (List.mem_append_left _ hb)
    rw [List.foldlM_append, hrun]
    simp only [List.foldlM_cons, List.foldlM_nil, bind_pure]
    by_cases hp : ∃ p : Property, a.name = p.name
    · obtain ⟨p, hp⟩ := hp
      obtain ⟨x, hx⟩ := exists_read hp (hvalues a (by simp))
      have hmerge : ((Style.only p x).merge (ownStyle attributes)).merge =
          fun block => (Style.only p x).merge ((ownStyle attributes).merge block) :=
        funext fun _ => Style.merge_assoc _ _ _
      rw [blockStyle_concat_of_ne (hp ▸ p.name_ne_style), ownStyle_concat_of_property hp hx hnew,
        hmerge]
      simp only [addDeclared_of_property hp hx, ← map_eq_pure_bind, Functor.map_map]
    · rw [not_exists] at hp
      rw [ownStyle_concat_of_other hp]
      by_cases hs : a.name = "style"
      · -- There is no other block, so nothing is on top yet.
        rw [blockStyle, blockStyle, ← hs, attribute?_concat_self hnew, attribute?_eq_none hnew]
        simp [addDeclared_of_style hs]
      · rw [blockStyle_concat_of_ne hs]
        simp only [addDeclared_of_other hp hs, bind_pure]

/-- Attributes of different names declare the same style in every order if no value among them is
malformed; groups understand attributes about paint only. A property has the value that the block
sets, or else the value of its own attribute, or else none. An attribute that is not about paint
changes nothing, wherever it comes. -/
theorem foldlM_addDeclared_perm {attributes : List Attribute}
    (hnames : (attributes.map (·.name)).Nodup)
    (hvalues : ∀ a ∈ attributes, Owner.group.fault? a = none) :
    (∃ style block : Style, (blockStyle attributes).result = .ok block ∧
      (∀ p, style.value? p = (block.value? p).or (ownValue? attributes p)) ∧
      ∀ others : List Attribute, others.Perm attributes →
        others.foldlM addDeclared .empty = ⟨(blockStyle attributes).diagnostics, .ok style⟩) ∧
      ∀ a : Attribute, (∀ p : Property, a.name ≠ p.name) → a.name ≠ "style" →
        ∀ current, declare? current a = none ∧ addDeclared current a = pure current := by
  refine ⟨?_, fun a hp hs current =>
    ⟨declare?_eq_none (Property.ofName?_eq_none_iff.2 hp) hs, addDeclared_of_other hp hs current⟩⟩
  obtain ⟨block, hblock⟩ := blockStyle_ok hvalues
  refine ⟨(ownStyle attributes).merge block, block, hblock, ?_, ?_⟩
  · intro p
    rw [Style.value?_merge, ownStyle, Style.value?_ofValues]
  · intro others hperm
    have hothers : (others.map (·.name)).Nodup := (hperm.map _).nodup_iff.2 hnames
    rw [foldlM_addDeclared hothers fun a ha => hvalues a (hperm.mem_iff.1 ha),
      ownStyle_perm hnames hperm, blockStyle_perm hnames hperm]
    exact Outcome.ext (Outcome.diagnostics_map _ _) (by rw [Outcome.result_map, hblock]; rfl)

/-- Attributes with a block that sets one of their properties, and one that is not about paint. -/
def overlapping : List Attribute :=
  [⟨"stroke", "red"⟩, ⟨"x", "1"⟩, ⟨"style", "fill: blue; stroke: lime"⟩, ⟨"opacity", " .5"⟩]

theorem foldlM_addDeclared_perm_overlapping :
    (∀ others : List Attribute, others.Perm overlapping →
        others.foldlM addDeclared .empty =
          ⟨[], .ok { fill := some (.ofBytes 0 0 255), stroke := some (.ofBytes 0 255 0),
                     opacity := some 0.5 }⟩) ∧
      ∀ current, addDeclared current ⟨"x", "1"⟩ = pure current := by
  have hnames : (overlapping.map (·.name)).Nodup := by decide
  obtain ⟨⟨style, block, hblock, hvalue, hperm⟩, hother⟩ :=
    foldlM_addDeclared_perm hnames (by decide +kernel)
  have hset : block = { fill := some (.ofBytes 0 0 255), stroke := some (.ofBytes 0 255 0) } := by
    rw [← Except.ok.injEq (ε := ReadError), ← hblock]
    exact toOption_eq_some_iff.1 (by decide +kernel)
  have hstyle : style = { fill := some (.ofBytes 0 0 255), stroke := some (.ofBytes 0 255 0),
                          opacity := some 0.5 } := by
    refine Style.ext_value? fun p => ?_
    rw [hvalue, hset]
    cases p <;> decide +kernel
  have hnone : (blockStyle overlapping).diagnostics = [] := by decide +kernel
  have hname : ∀ p : Property, "x" ≠ p.name := fun p => by cases p <;> decide
  refine ⟨fun others h => ?_, fun current => (hother ⟨"x", "1"⟩ hname (by decide) current).2⟩
  rw [hperm others h, hnone, hstyle]

end Reader

end IconCode

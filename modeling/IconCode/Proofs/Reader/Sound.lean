import IconCode.Proofs.Paint.Sound
import IconCode.Proofs.Reader.Inheritance

/-!
# Sound documents

Every element of a document that is read has a sound style: what its attributes declare is sound,
and so is what it inherits.

* `Subject.sound_of_declared`: what the attributes of an element declare.
* `sound_of_run`: the styles of all leaves of a document.
-/

namespace IconCode

open Outcome (result_bind_ok_iff result_map_ok_iff)

namespace Reader

open Markup (Attribute Event TagTree)

/-! ## Declared styles -/

theorem sound_of_declare? {style style' : Style} {a : Attribute} {declared : Outcome Style}
    (hs : style.Sound) (hd : declare? style a = some declared) (h : declared.result = .ok style') :
    style'.Sound := by
  unfold declare? at hd
  split at hd
  · cases hd
    obtain ⟨own, hown, hmerge⟩ := result_bind_ok_iff.1 h
    cases hmerge
    exact (Property.sound_of_declare hown).merge hs
  · split at hd
    · cases hd
      obtain ⟨block, hblock, hmerge⟩ := result_bind_ok_iff.1 h
      cases hmerge
      exact hs.merge (Style.sound_of_ofBlock hblock)
    · cases hd

theorem sound_of_gather {σ : Type} {element : String} {own : Vocabulary σ}
    {state state' : σ × Style} {a : Attribute} (hs : state.2.Sound)
    (h : (gather element own state a).result = .ok state') : state'.2.Sound := by
  unfold gather at h
  split at h
  · obtain ⟨geometry, -, h⟩ := result_bind_ok_iff.1 h
    cases h
    exact hs
  · split at h
    · rename_i hd
      obtain ⟨style, hstyle, h⟩ := result_bind_ok_iff.1 h
      cases h
      exact sound_of_declare? hs hd hstyle
    · split at h
      · cases h
        exact hs
      · cases h
        exact hs

theorem sound_of_gatherAll {σ : Type} {element : String} {own : Vocabulary σ} {start : σ}
    {attributes : List Attribute} {state : σ × Style}
    (h : (gatherAll element own start attributes).result = .ok state) : state.2.Sound :=
  Outcome.foldlM_preserves (fun state => state.2.Sound)
    (fun _ _ _ hs hstep => sound_of_gather hs hstep) Style.sound_empty h

theorem sound_of_finish {σ : Type} {shape : σ → Shape} {x : Outcome (σ × Style)} {e : Element}
    (hx : ∀ state, x.result = .ok state → state.2.Sound)
    (h : (ShapeName.read.finish shape x).result = .ok e) : e.style.Sound := by
  obtain ⟨state, hstate, h⟩ := result_bind_ok_iff.1 h
  cases h
  exact hx state hstate

theorem sound_of_read {name : ShapeName} {attributes : List Attribute} {e : Element}
    (h : (name.read attributes).result = .ok e) : e.style.Sound := by
  cases name <;> exact sound_of_finish (fun _ => sound_of_gatherAll) h

theorem Subject.sound_of_declared {x : Subject} {own : Style}
    (h : x.declared.result = .ok own) : own.Sound := by
  obtain ⟨owner, attributes⟩ := x
  cases owner with
  | root =>
    obtain ⟨d, hd, rfl⟩ := result_map_ok_iff.1 h
    obtain ⟨state, hstate, hd⟩ := result_bind_ok_iff.1 hd
    cases hd
    exact sound_of_gatherAll hstate
  | group =>
    obtain ⟨state, hstate, h⟩ := result_bind_ok_iff.1 h
    cases h
    exact sound_of_gatherAll hstate
  | shape s =>
    obtain ⟨e, he, rfl⟩ := result_map_ok_iff.1 h
    exact sound_of_read he

/-! ## Inherited styles -/

theorem Declare.sound {elements : List Subject} {declared : List Style}
    (h : Declare elements declared) : ∀ s ∈ declared, s.Sound := by
  induction h with
  | nil => simp
  | cons hown _ ih => exact List.forall_mem_cons.2 ⟨Subject.sound_of_declared hown, ih⟩

theorem Inherits.sound {p : Style × Style} {lineage : List Subject} (h : Inherits p lineage) :
    p.2.Sound := by
  obtain ⟨own, declared, hdeclare, -, hnearest⟩ := h
  rw [hnearest]
  exact .nearest hdeclare.sound

end Reader

namespace Element

mutual

/-- The leaves have styles of the elements. -/
theorem forall_mem_leaves {P : Style → Prop} (parent : Style) : ∀ e : Element,
    (∀ p ∈ e.styles parent, P p.2) → ∀ l ∈ e.leaves, P l.style
  | .leaf shape style, h => by
    simpa [styles, leaves] using h
  | .group children style, h => by
    rw [styles, List.forall_mem_cons] at h
    exact forall_mem_leavesAll style children h.2

theorem forall_mem_leavesAll {P : Style → Prop} (parent : Style) : ∀ es : List Element,
    (∀ p ∈ stylesAll parent es, P p.2) → ∀ l ∈ leavesAll es, P l.style
  | [], _ => by simp [leavesAll]
  | e :: es, h => by
    rw [stylesAll, List.forall_mem_append] at h
    rw [leavesAll, List.forall_mem_append]
    exact ⟨forall_mem_leaves parent e h.1, forall_mem_leavesAll parent es h.2⟩

end

end Element

namespace Reader

open Markup (Event TagTree)

/-- Text apart, the document of a run is that of the tree that the events write. -/
theorem document_of_run {events : List Event} {root : TagTree} {d : Document}
    (h : (run events).result = .ok d) (hroot : WritesRoot root events) :
    root.document.result = .ok d.untitled := by
  rw [← foldlM_root_finish hroot, ← untitled_run]
  exact result_map_ok_iff.2 ⟨d, h, rfl⟩

/-- All leaves of a document have sound styles. -/
theorem sound_of_run {events : List Event} {d : Document} (h : (run events).result = .ok d) :
    ∀ l ∈ Element.leavesAll d.children, l.style.Sound := by
  obtain ⟨root, hroot⟩ := writesRoot_of_run_ok h
  have hd := document_of_run h hroot
  obtain ⟨-, hinherits⟩ := Markup.TagTree.forall₂_inherits_document hd
  have hsound : List.Forall₂ (fun p lineage => p.2.Sound ∧ Inherits p lineage)
      (Element.stylesAll d.style d.children) root.rootLineages :=
    hinherits.imp fun _ _ hp => ⟨hp.sound, hp⟩
  exact Element.forall_mem_leavesAll d.style d.children ((List.forall₂_and_left _ _).1 hsound).1

end Reader

end IconCode

import IconCode.Proofs.Generate
import IconCode.Proofs.Geometry.Double
import IconCode.Proofs.Naming.Words

/-!
# Which documents have an accessor

A document has an accessor if its title has a letter or digit and every colour that is drawn can be
written. Otherwise the title counts first, and after it the first leaf in document order that is at
fault. Nothing else of a document has a part in this, nor has what can be chosen about the code.

* `Leaf.fault?_eq_some_iff`: when a leaf is at fault.
* `firstFault_iff`: the first fault of elements in document order.
* `Element.findSome?_bareAll`: what is not drawn is never at fault.
* `Document.tokens_error_iff_firstFault`: when a document has no code, and why.
-/

namespace IconCode

open Naming (Identifier)

/-! ## Colours -/

/-- Whether a channel is no finite number, or none between 0 and 1. -/
def Color.OutOfRange (c : Color) : Prop :=
  ∃ x ∈ [c.r, c.g, c.b, c.a], ¬ (x.isFinite = true ∧ 0.0 ≤ x ∧ x ≤ 1.0)

/-- Whether a colour cannot be written with the two opacities that it meets. -/
def Color.Unwritable (c : Color) (own overall : Float) : Prop :=
  c.OutOfRange ∨ ¬ (own * overall).isFinite = true

theorem Color.isUnit_iff (x : Float) :
    isUnit x = true ↔ x.isFinite = true ∧ 0.0 ≤ x ∧ x ≤ 1.0 := by
  have hzero : (0.0 : Float).isFinite = true := by decide
  have hone : (1.0 : Float).isFinite = true := by decide
  rw [isUnit, Bool.and_eq_true, decide_eq_true_eq, decide_eq_true_eq]
  constructor
  · rintro ⟨hl, hh⟩
    exact ⟨Double.isFinite_of_le hzero hone hl hh, hl, hh⟩
  · exact And.right

theorem Color.outOfRange_iff (c : Color) : c.OutOfRange ↔ ¬ c.InRange := by
  simp only [OutOfRange, InRange, ← isUnit_iff, not_forall, exists_prop]

theorem Color.unwritable_iff (c : Color) (own overall : Float) :
    c.Unwritable own overall ↔ ¬ Tone.Writable c (own * overall) := by
  rw [Unwritable, outOfRange_iff, Tone.Writable, not_and_or]

/-! ## Leaves -/

namespace Leaf

/-- Whether a leaf is drawn: it has an active paint, and geometry. -/
def IsDrawn (l : Leaf) : Prop := l.style.paints = true ∧ l.shape.isEmpty = false

instance (l : Leaf) : Decidable l.IsDrawn :=
  inferInstanceAs (Decidable (l.style.paints = true ∧ l.shape.isEmpty = false))

/-- The colour at fault of a leaf that is drawn: that of its active fill, or else that of its active
stroke. -/
inductive Faulty (l : Leaf) : Color → Prop where
  | fill {c : Color} (hd : l.IsDrawn) (hc : l.style.activeFill? = some c)
      (h : c.Unwritable l.style.effectiveFillOpacity l.style.effectiveOpacity) : Faulty l c
  | stroke {c : Color} (hd : l.IsDrawn)
      (hfill : ∀ d, l.style.activeFill? = some d →
        ¬ d.Unwritable l.style.effectiveFillOpacity l.style.effectiveOpacity)
      (hc : l.style.activeStroke? = some c)
      (h : c.Unwritable l.style.effectiveStrokeOpacity l.style.effectiveOpacity) : Faulty l c

end Leaf

namespace Style

theorem fillFault?_eq_some_iff (s : Style) (c : Color) :
    s.fillFault? = some c ↔
      s.activeFill? = some c ∧ c.Unwritable s.effectiveFillOpacity s.effectiveOpacity := by
  simp [fillFault?, Option.filter_eq_some_iff, Color.unwritable_iff]

theorem fillFault?_eq_none_iff (s : Style) :
    s.fillFault? = none ↔
      ∀ c, s.activeFill? = some c →
        ¬ c.Unwritable s.effectiveFillOpacity s.effectiveOpacity := by
  simp [fillFault?, Option.filter_eq_none_iff, Color.unwritable_iff]

theorem strokeFault?_eq_some_iff (s : Style) (c : Color) :
    s.strokeFault? = some c ↔
      s.activeStroke? = some c ∧ c.Unwritable s.effectiveStrokeOpacity s.effectiveOpacity := by
  simp [strokeFault?, Option.filter_eq_some_iff, Color.unwritable_iff]

end Style

theorem Leaf.fault?_eq_some_iff (l : Leaf) (c : Color) : l.fault? = some c ↔ l.Faulty c := by
  have hdrawn : ∀ {d : Color}, l.shape.isEmpty = false →
      l.style.activeFill? = some d ∨ l.style.activeStroke? = some d → l.IsDrawn := by
    intro d hshape hactive
    refine ⟨?_, hshape⟩
    rcases hactive with h | h <;> simp [Style.paints, h]
  constructor
  · intro h
    cases hshape : l.shape.isEmpty with
    | true => simp [fault?, hshape] at h
    | false =>
      rw [fault?, hshape] at h
      rcases Option.or_eq_some_iff.1 h with h | ⟨hnone, h⟩
      · obtain ⟨hc, hu⟩ := (Style.fillFault?_eq_some_iff _ _).1 h
        exact .fill (hdrawn hshape (.inl hc)) hc hu
      · obtain ⟨hc, hu⟩ := (Style.strokeFault?_eq_some_iff _ _).1 h
        exact .stroke (hdrawn hshape (.inr hc)) ((Style.fillFault?_eq_none_iff _).1 hnone) hc hu
  · intro h
    cases h with
    | fill hd hc hu =>
      have hfault := (Style.fillFault?_eq_some_iff _ _).2 ⟨hc, hu⟩
      simp [fault?, hd.2, Style.fault?, hfault]
    | stroke hd hfill hc hu =>
      have hnone := (Style.fillFault?_eq_none_iff _).2 hfill
      have hfault := (Style.strokeFault?_eq_some_iff _ _).2 ⟨hc, hu⟩
      simp [fault?, hd.2, Style.fault?, hnone, hfault]

theorem Leaf.fault?_eq_none_iff (l : Leaf) : l.fault? = none ↔ ∀ c, ¬ l.Faulty c := by
  simp only [← fault?_eq_some_iff, Option.eq_none_iff_forall_ne_some, Ne]

/-- What is not drawn is not at fault. -/
theorem Leaf.fault?_eq_none_of_not_isDrawn {l : Leaf} (h : ¬ l.IsDrawn) : l.fault? = none := by
  rw [fault?_eq_none_iff]
  intro c hc
  cases hc with
  | fill hd => exact h hd
  | stroke hd => exact h hd

/-! ## Elements -/

/-- The first fault of elements in document order: the one of a leaf before which no leaf has
one. -/
def FirstFault (es : List Element) (c : Color) : Prop :=
  ∃ before l after, Element.leavesAll es = before ++ l :: after ∧ l.Faulty c ∧
    ∀ m ∈ before, ∀ d, ¬ m.Faulty d

theorem firstFault_iff (es : List Element) (c : Color) :
    (Element.leavesAll es).findSome? Leaf.fault? = some c ↔ FirstFault es c := by
  simp only [List.findSome?_eq_some_iff, Leaf.fault?_eq_some_iff, Leaf.fault?_eq_none_iff]
  rfl

/-- The style without the paints that are not active. -/
def Style.active (s : Style) : Style := { s with fill := s.activeFill?, stroke := s.activeStroke? }

namespace Element

mutual

/-- What is drawn of an element: no leaf that is not drawn, no inactive paint and no style of a
group. -/
def bare : Element → List Element
  | .leaf shape style => if (Leaf.mk shape style).IsDrawn then [.leaf shape style.active] else []
  | .group children _ => [.group (bareAll children) .empty]

def bareAll : List Element → List Element
  | [] => []
  | e :: es => e.bare ++ bareAll es

end

end Element

theorem Style.fault?_active (s : Style) : s.active.fault? = s.fault? := by
  have hfill : s.active.activeFill? = s.activeFill? := by
    simp [active, activeFill?, Option.filter_filter]
  have hstroke : s.active.activeStroke? = s.activeStroke? := by
    change s.activeStroke?.filter (fun c => !c.isClear && 0.0 < s.effectiveStrokeWidth) = _
    simp [activeStroke?, Option.filter_filter]
  simp only [fault?, fillFault?, strokeFault?, hfill, hstroke]
  rfl

namespace Element

theorem leavesAll_append (es fs : List Element) :
    leavesAll (es ++ fs) = leavesAll es ++ leavesAll fs := by
  induction es with
  | nil => rfl
  | cons e es ih => simp [leavesAll, ih]

mutual

theorem findSome?_bare : ∀ e : Element,
    (leavesAll e.bare).findSome? Leaf.fault? = e.leaves.findSome? Leaf.fault?
  | .leaf shape style => by
    rw [bare, leaves, List.findSome?_singleton]
    by_cases h : (Leaf.mk shape style).IsDrawn
    · simp [h, leavesAll, leaves, Leaf.fault?, Style.fault?_active]
    · have hnone := (Leaf.fault?_eq_none_of_not_isDrawn h)
      simp [h, leavesAll, hnone]
  | .group children style => by
    rw [bare, leavesAll, leavesAll, leaves, leaves, List.append_nil, findSome?_bareAll children]

theorem findSome?_bareAll : ∀ es : List Element,
    (leavesAll (bareAll es)).findSome? Leaf.fault? = (leavesAll es).findSome? Leaf.fault?
  | [] => rfl
  | e :: es => by
    rw [bareAll, leavesAll_append, leavesAll, List.findSome?_append, List.findSome?_append,
      findSome?_bare e, findSome?_bareAll es]

end

end Element

/-! ## Documents -/

namespace Document

theorem tokens_ok_iff (d : Document) (options : Options) :
    (∃ tokens, d.tokens options = .ok tokens) ↔ d.drawError? = none := by
  have herror := d.tokens_error_iff options
  cases htokens : d.tokens options with
  | error e => simp [(herror e).1 htokens]
  | ok tokens =>
    simp only [htokens, reduceCtorEq, false_iff] at herror
    simp [Option.eq_none_iff_forall_ne_some.2 herror]

/-- Whether a title has a letter or digit to make a name of. -/
def HasWords (d : Document) : Prop := ∃ c ∈ d.title.toList, c.isAlphanum = true

theorem drawError?_eq (d : Document) :
    (¬ d.HasWords → d.drawError? = some .invalidTitle) ∧
      (d.HasWords → d.drawError? =
        ((Element.leavesAll d.children).findSome? Leaf.fault?).map .unsupportedColor) := by
  have hnone : Identifier.ofTitle? d.title = none ↔ ¬ d.HasWords := by
    simp [Identifier.ofTitle?_eq_none_iff_forall, HasWords]
  unfold drawError?
  constructor
  · intro h
    rw [if_pos (hnone.2 h)]
  · intro h
    rw [if_neg (fun hn => hnone.1 hn h)]

theorem drawError?_eq_invalidTitle_iff (d : Document) :
    d.drawError? = some .invalidTitle ↔ ¬ d.HasWords := by
  by_cases h : d.HasWords
  · rw [d.drawError?_eq.2 h]
    cases (Element.leavesAll d.children).findSome? Leaf.fault? <;> simp [h]
  · simp [d.drawError?_eq.1 h, h]

theorem drawError?_eq_unsupportedColor_iff (d : Document) (color : Color) :
    d.drawError? = some (.unsupportedColor color) ↔
      d.HasWords ∧ FirstFault d.children color := by
  rw [← firstFault_iff]
  by_cases h : d.HasWords
  · rw [d.drawError?_eq.2 h]
    cases (Element.leavesAll d.children).findSome? Leaf.fault? <;> simp [h]
  · simp [d.drawError?_eq.1 h, h]

theorem drawError?_eq_none_iff (d : Document) :
    d.drawError? = none ↔
      d.HasWords ∧ ∀ l ∈ Element.leavesAll d.children, ∀ color, ¬ l.Faulty color := by
  by_cases h : d.HasWords
  · simp only [d.drawError?_eq.2 h, Option.map_eq_none_iff, List.findSome?_eq_none_iff,
      Leaf.fault?_eq_none_iff, h, true_and]
  · simp [d.drawError?_eq.1 h, h]

/-- The document without all that is not drawn. -/
def bare (d : Document) : Document := { d with children := Element.bareAll d.children }

theorem drawError?_bare (d : Document) : d.bare.drawError? = d.drawError? := by
  simp only [drawError?, bare, Element.findSome?_bareAll]

/-- A document without a letter or digit in its title has no code for that reason. Any other
document has none if a leaf is at fault, and then because of the first such leaf. It is so whatever
is chosen about the code, and the same if everything is left out that is not drawn. -/
theorem tokens_error_iff_firstFault (d : Document) (options : Options) :
    (d.tokens options = .error .invalidTitle ↔ ∀ c ∈ d.title.toList, c.isAlphanum = false) ∧
      (∀ color, d.tokens options = .error (.unsupportedColor color) ↔
        d.HasWords ∧ FirstFault d.children color) ∧
      ((∃ tokens, d.tokens options = .ok tokens) ↔
        d.HasWords ∧ ∀ l ∈ Element.leavesAll d.children, ∀ color, ¬ l.Faulty color) ∧
      (∀ options' e, d.tokens options' = .error e ↔ d.tokens options = .error e) ∧
      ∀ e, d.bare.tokens options = .error e ↔ d.tokens options = .error e := by
  refine ⟨?_, ?_, ?_, ?_, ?_⟩
  · rw [tokens_error_iff, drawError?_eq_invalidTitle_iff]
    simp [HasWords]
  · intro color
    rw [tokens_error_iff, drawError?_eq_unsupportedColor_iff]
  · rw [tokens_ok_iff, drawError?_eq_none_iff]
  · intro options' e
    rw [tokens_error_iff, tokens_error_iff]
  · intro e
    rw [tokens_error_iff, tokens_error_iff, drawError?_bare]

end Document

end IconCode

import IconCode.Generate
import IconCode.Markup.Scanner
import IconCode.Proofs.Accessor.Tokens
import IconCode.Proofs.Reader.Sound

/-!
# Why there is no code

A document has no code if its title has no words, or else if a colour cannot be written, or else if
the formatter refuses the tokens. The colours of a document that was read can be written; what may
be missing is a finite product of the opacities that meet in a leaf.

* `Document.render_error_iff`: the error of a document.
* `accepts_layout`: a formatter that refuses no document.
* `Style.Sound.fault?_eq`: of sound paint only the opacities can be at fault.
* `convert_error_iff`: the error of markup that was read.
* `not_convert_error_invalidTitle`: opacities that are finite each may have no finite product.
-/

namespace IconCode

open Naming (Identifier)

/-! ## Documents -/

namespace Document

/-- Why a document has no code: its title counts before its colours. -/
def drawError? (d : Document) : Option DrawError :=
  if Identifier.ofTitle? d.title = none then some .invalidTitle
  else ((Element.leavesAll d.children).findSome? Leaf.fault?).map .unsupportedColor

/-- The document with a title for one that has none. -/
def titled (d : Document) (title : String) : Document :=
  if d.title.isEmpty then { d with title } else d

theorem children_titled (d : Document) (title : String) :
    (d.titled title).children = d.children := by
  unfold titled
  split <;> rfl

theorem accessor_error_iff (d : Document) (options : Options) (e : DrawError) :
    Accessor.ofDocument d options = .error e ↔ d.drawError? = some e := by
  unfold Accessor.ofDocument drawError?
  cases Identifier.ofTitle? d.title with
  | none => simp
  | some name =>
    rw [Figure.ofElements_eq]
    cases (Element.leavesAll d.children).findSome? Leaf.fault? <;> simp [unlessFault]

theorem tokens_error_iff (d : Document) (options : Options) (e : DrawError) :
    d.tokens options = .error e ↔ d.drawError? = some e := by
  rw [← accessor_error_iff d options e, tokens]
  cases Accessor.ofDocument d options <;> simp [Except.map]

theorem code_error_iff (format : Code.Formatter) (d : Document) (options : Options)
    (e : DrawError) :
    d.code format options = .error e ↔
      d.drawError? = some e ∨
        ∃ ts reason, d.tokens options = .ok ts ∧ format ts = .error reason ∧
          e = .unformattable reason := by
  rw [← tokens_error_iff d options e, code]
  cases d.tokens options with
  | error fault => simp
  | ok ts =>
    cases hformat : format ts with
    | error reason =>
      simp only [hformat]
      constructor
      · intro h
        cases h
        exact .inr ⟨ts, reason, rfl, hformat, rfl⟩
      · rintro (h | ⟨_, _, hts, hreason, rfl⟩)
        · cases h
        · cases hts
          rw [hformat] at hreason
          cases hreason
          rfl
    | ok code => simp [hformat]

/-- A reason of the formatter is all that is added to the errors of the accessor. -/
theorem render_error_iff (format : Code.Formatter) (d : Document) (options : Options)
    (e : DrawError) :
    d.render format options = .error e ↔
      d.drawError? = some e ∨
        ∃ ts reason, d.tokens options = .ok ts ∧ format ts = .error reason ∧
          e = .unformattable reason := by
  rw [← code_error_iff, render]
  cases d.code format options <;> simp [Except.map]

end Document

/-! ## Formatters -/

/-- Whether the tokens of every document are accepted. -/
def Code.Formatter.Accepts (format : Code.Formatter) : Prop :=
  ∀ (d : Document) (options : Options) (ts : List Code.Token),
    d.tokens options = .ok ts → ∃ code, format ts = .ok code

theorem accepts_layout : Code.Formatter.Accepts layout := by
  intro d options ts hts
  obtain ⟨a, -, rfl⟩ := map_ok_iff.1 hts
  exact ⟨a.source, layout_tokens a⟩

theorem Document.render_error_iff_of_accepts {format : Code.Formatter} (h : format.Accepts)
    (d : Document) (options : Options) (e : DrawError) :
    d.render format options = .error e ↔ d.drawError? = some e := by
  rw [render_error_iff]
  refine ⟨?_, .inl⟩
  rintro (hfault | ⟨ts, reason, hts, hreason, -⟩)
  · exact hfault
  · obtain ⟨code, hcode⟩ := h d options ts hts
    rw [hreason] at hcode
    cases hcode

/-- A document without a fault has code. -/
theorem Document.exists_render_eq_ok {format : Code.Formatter} (h : format.Accepts) {d : Document}
    (hd : d.drawError? = none) (options : Options) :
    ∃ code, d.render format options = .ok code := by
  cases hrender : d.render format options with
  | error e =>
    rw [render_error_iff_of_accepts h, hd] at hrender
    cases hrender
  | ok code => exact ⟨code, rfl⟩

/-! ## Opacities -/

namespace Style

/-- The colour of the inside if the opacities that it meets have no finite product. -/
def fillOverflow? (s : Style) : Option Color :=
  s.activeFill?.filter fun _ => ¬ (s.effectiveFillOpacity * s.effectiveOpacity).isFinite = true

/-- The colour of the outline if the opacities that it meets have no finite product. -/
def strokeOverflow? (s : Style) : Option Color :=
  s.activeStroke?.filter fun _ => ¬ (s.effectiveStrokeOpacity * s.effectiveOpacity).isFinite = true

/-- A colour in range can be written with every finite opacity. -/
theorem filter_writable_eq {active : Option Color} (h : ∀ c ∈ active, c.InRange)
    (opacity : Float) :
    (active.filter fun c => ¬ Tone.Writable c opacity) =
      active.filter fun _ => ¬ opacity.isFinite = true := by
  cases active with
  | none => rfl
  | some c =>
    have hrange : c.InRange := h c rfl
    simp only [Option.filter, Tone.Writable, hrange, true_and]

namespace Sound

variable {s : Style} (h : s.Sound)

include h

theorem inRange_of_activeFill? {c : Color} (hc : c ∈ s.activeFill?) : c.InRange :=
  h.fill c (Option.eq_some_of_filter_eq_some hc)

theorem inRange_of_activeStroke? {c : Color} (hc : c ∈ s.activeStroke?) : c.InRange :=
  h.stroke c (Option.eq_some_of_filter_eq_some hc)

theorem fault?_eq : s.fault? = s.fillOverflow?.or s.strokeOverflow? := by
  have hfill := filter_writable_eq (fun c hc => h.inRange_of_activeFill? hc)
    (s.effectiveFillOpacity * s.effectiveOpacity)
  have hstroke := filter_writable_eq (fun c hc => h.inRange_of_activeStroke? hc)
    (s.effectiveStrokeOpacity * s.effectiveOpacity)
  rw [fault?, fillFault?, strokeFault?, hfill, hstroke]
  rfl

end Sound

end Style

/-- The first colour of a leaf that meets opacities without a finite product. A leaf without
geometry has none. -/
def Leaf.overflow? (l : Leaf) : Option Color :=
  if l.shape.isEmpty then none else l.style.fillOverflow?.or l.style.strokeOverflow?

/-- The first colour of a document that meets opacities without a finite product. -/
def Document.overflow? (d : Document) : Option Color :=
  (Element.leavesAll d.children).findSome? Leaf.overflow?

theorem Leaf.fault?_eq_overflow? {l : Leaf} (h : l.style.Sound) : l.fault? = l.overflow? := by
  rw [fault?, overflow?, h.fault?_eq]

/-- Among sound colours the first fault is the first overflow. -/
theorem findSome?_fault?_eq {leaves : List Leaf} (h : ∀ l ∈ leaves, l.style.Sound) :
    leaves.findSome? Leaf.fault? = leaves.findSome? Leaf.overflow? := by
  induction leaves with
  | nil => rfl
  | cons l leaves ih =>
    rw [List.forall_mem_cons] at h
    rw [findSome?_cons_eq_or, findSome?_cons_eq_or, Leaf.fault?_eq_overflow? h.1, ih h.2]

/-! ## Markup -/

deriving instance DecidableEq for ConvertError

section

variable {scan : Markup.Scanner} {format : Code.Formatter} {markup : String} {d : Document}

theorem convert_error_iff_drawError? (hformat : format.Accepts)
    (h : (Reader.ofText scan markup).result = .ok d) (title : String) (options : Options)
    (e : ConvertError) :
    convert scan format markup title options = .error e ↔
      ∃ fault, (d.titled title).drawError? = some fault ∧ e = .undrawable fault := by
  have hd : (if d.title.isEmpty then { d with title } else d) = d.titled title := rfl
  simp only [convert, h, hd, ← Document.render_error_iff_of_accepts hformat _ options]
  cases (d.titled title).render format options with
  | error fault => simp [eq_comm]
  | ok code => simp

/-- Markup that was read has sound paint. If the formatter refuses no document, it has no code if
its title has no words, or else if a leaf meets opacities, each of them finite, that have no finite
product: with every finite product the alpha is held between 0 and 1. -/
theorem convert_error_iff (hformat : format.Accepts)
    (h : (Reader.ofText scan markup).result = .ok d) :
    (∀ l ∈ Element.leavesAll d.children, l.style.Sound) ∧
      (∀ c opacity, Color.isUnit (Tone.alpha c opacity) = true) ∧
      ∀ (title : String) (options : Options) (e : ConvertError),
        convert scan format markup title options = .error e ↔
          Identifier.ofTitle? (d.titled title).title = none ∧ e = .undrawable .invalidTitle ∨
            Identifier.ofTitle? (d.titled title).title ≠ none ∧
              ∃ c, d.overflow? = some c ∧ e = .undrawable (.unsupportedColor c) := by
  have hsound := Reader.sound_of_run h
  refine ⟨hsound, Tone.isUnit_alpha, ?_⟩
  intro title options e
  have hfault : (Element.leavesAll (d.titled title).children).findSome? Leaf.fault? =
      d.overflow? := by
    rw [Document.children_titled, findSome?_fault?_eq hsound]
    rfl
  rw [convert_error_iff_drawError? hformat h, Document.drawError?, hfault]
  by_cases htitle : Identifier.ofTitle? (d.titled title).title = none
  · simp [htitle]
  · cases d.overflow? <;> simp [htitle]

end

/-- A square under two opacities. -/
def fadedSquare (inner outer : String) : String :=
  "<svg><g opacity=\"" ++ outer ++ "\"><rect width=\"2\" height=\"2\" fill-opacity=\"" ++ inner ++
    "\"/></g></svg>"

theorem convert_error_iff_large :
    Code.Formatter.Accepts layout ∧
      ∃ d, (Reader.ofText Markup.scan (fadedSquare "2" "1e300")).result = .ok d ∧
        (∀ l ∈ Element.leavesAll d.children, l.style.Sound) ∧
        (∀ c opacity, Color.isUnit (Tone.alpha c opacity) = true) ∧
        ∀ (title : String) (options : Options) (e : ConvertError),
          convert Markup.scan layout (fadedSquare "2" "1e300") title options = .error e ↔
            Identifier.ofTitle? (d.titled title).title = none ∧ e = .undrawable .invalidTitle ∨
              Identifier.ofTitle? (d.titled title).title ≠ none ∧
                ∃ c, d.overflow? = some c ∧ e = .undrawable (.unsupportedColor c) := by
  have hnone : (Reader.ofText Markup.scan (fadedSquare "2" "1e300")).error? = none := by
    decide +kernel
  obtain ⟨d, hd⟩ := Outcome.error?_eq_none_iff.1 hnone
  exact ⟨accepts_layout, d, hd, convert_error_iff accepts_layout hd⟩

/-- The title is not all that can be at fault, even if the formatter refuses no document: opacities
that are finite each may have no finite product. -/
theorem not_convert_error_invalidTitle :
    ¬ ∀ format : Code.Formatter, format.Accepts →
      ∀ (markup title : String) (options : Options) (e : ConvertError),
        (∃ d, (Reader.ofText Markup.scan markup).result = .ok d) →
          convert Markup.scan format markup title options = .error e →
            e = .undrawable .invalidTitle := by
  intro h
  have hnone : (Reader.ofText Markup.scan (fadedSquare "1e308" "1e308")).error? = none := by
    decide +kernel
  have hread := Outcome.error?_eq_none_iff.1 hnone
  have hconvert : convert Markup.scan layout (fadedSquare "1e308" "1e308") "a" {} =
      .error (.undrawable (.unsupportedColor .black)) := by
    decide +kernel
  have hfault := h layout accepts_layout _ _ _ _ hread hconvert
  cases hfault

end IconCode

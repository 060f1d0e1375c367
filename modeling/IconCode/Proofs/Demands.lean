import IconCode.Proofs.Accessor
import IconCode.Proofs.Decimal.Value

/-!
# Numbers that have to be positive

The code of an accessor divides by the sides of the view box and draws outlines of given widths.
That these are positive is asked of the numbers of the document, but it is their literals that the
code has. A literal is nothing where the number is not above half a hundredth, or is not finite.

* `Code.numberTokens_eq_zero_iff`: how nothing is written.
* `Code.Stmt.demandsAll_eq_flatMap`: statements demand what each of them does.
* `Figure.demands_code`: figures demand the widths of their outlines.
* `Figure.strokesAll_drawForms`: the outlines of elements are those of the leaves that are drawn.
* `Accessor.demands_ofDocument`: what the code of a document demands.
* `Accessor.demands_pos_iff`: when all of it is met.
* `Accessor.not_demands_pos`: it need not be.
-/

namespace IconCode

open Code
open Decimal (Hundredths Visible)

/-! ## Code -/

/-- A number in the code that has to be positive. -/
inductive Demand where
  /-- What a side of the picture is divided by. -/
  | divisor (number : Hundredths)
  | strokeWidth (number : Hundredths)
deriving DecidableEq

def Demand.number : Demand → Hundredths
  | .divisor number => number
  | .strokeWidth number => number

namespace Code

theorem numberTokens_eq_zero_iff (h : Hundredths) :
    numberTokens h = [.atom "0.00"] ↔ h.value = 0 := by
  have hzero : numberTokens ⟨0⟩ = [.atom "0.00"] := by rfl
  rw [Hundredths.value_eq_zero_iff, ← hzero]
  constructor
  · intro heq
    have happend : numberTokens h ++ [] = numberTokens ⟨0⟩ ++ [] := by rw [heq]
    exact (numberTokens_append_inj happend).1
  · intro heq
    rw [heq]

/-- What is demanded of the field of a record: that the width of a stroke is positive. -/
def fieldDemands (type : List String) (field : String) : Expr → List Demand
  | .number value =>
    if type = skia ["Stroke"] ∧ field = "width" then [.strokeWidth value] else []
  | _ => []

mutual

/-- The numbers of an expression that have to be positive, from left to right. -/
def Expr.demands : Expr → List Demand
  | .path _ | .number _ | .borrow _ => []
  | .call _ arguments => Expr.demandsAll arguments
  | .method receiver _ arguments => receiver.demands ++ Expr.demandsAll arguments
  | .attempt value => value.demands
  | .ratio _ divisor => [.divisor divisor]
  | .record type field value rest => fieldDemands type field value ++ value.demands ++ rest.demands
  | .block body => Stmt.demandsAll body
  | .ifSome _ body => Stmt.demandsAll body
  | .ifSomeElse _ body otherwise => Stmt.demandsAll body ++ Stmt.demandsAll otherwise

def Expr.demandsAll : List Expr → List Demand
  | [] => []
  | e :: es => e.demands ++ Expr.demandsAll es

def Stmt.demands : Stmt → List Demand
  | .bind _ _ value => value.demands
  | .run value => value.demands
  | .result value => value.demands
  | .fixed _ _ => []

def Stmt.demandsAll : List Stmt → List Demand
  | [] => []
  | s :: ss => s.demands ++ Stmt.demandsAll ss

end

theorem Stmt.demandsAll_eq_flatMap (ss : List Stmt) :
    Stmt.demandsAll ss = ss.flatMap Stmt.demands := by
  induction ss with
  | nil => rfl
  | cons s ss ih => rw [Stmt.demandsAll, ih, List.flatMap_cons]

theorem Stmt.demandsAll_append (ss ts : List Stmt) :
    Stmt.demandsAll (ss ++ ts) = Stmt.demandsAll ss ++ Stmt.demandsAll ts := by
  simp only [demandsAll_eq_flatMap, List.flatMap_append]

theorem Stmt.demandsAll_eq_nil {ss : List Stmt} (h : ∀ s ∈ ss, s.demands = []) :
    Stmt.demandsAll ss = [] := by
  rw [demandsAll_eq_flatMap, List.flatMap_eq_nil_iff]
  exact h

end Code

/-! ## Figures -/

theorem Command.demands_statement (c : Command Hundredths) : c.statement.demands = [] := by
  cases c <;> rfl

/-- No outline demands anything: its frame may be refused instead. -/
theorem Outline.demands_expr (outline : Outline) : outline.expr.demands = [] := by
  cases outline with
  | rectangle r => rfl
  | oval r => rfl
  | trace commands =>
    -- The commands are calls without ratios or records, however many there are.
    have hcommands : Stmt.demandsAll (commands.map Command.statement) = [] := by
      apply Stmt.demandsAll_eq_nil
      intro s hs
      obtain ⟨c, -, rfl⟩ := List.mem_map.1 hs
      exact c.demands_statement
    simp [expr, Expr.demands, Expr.demandsAll, Stmt.demandsAll, Stmt.demands,
      Stmt.demandsAll_append, hcommands, Expr.name]

theorem FillRule.demands_expr (rule : FillRule) : rule.expr.demands = [] := by
  cases rule <;> rfl

namespace Figure

theorem demands_strokeShape (s : Stroke) : (strokeShape s).demands = [.strokeWidth s.width] := by
  simp [strokeShape, Stmt.demands, Expr.demands, Expr.demandsAll, fieldDemands]

/-- Painting demands the width of the outline, which is declared once. -/
theorem demandsAll_paint (fill : Option Fill) (stroke : Option Stroke) :
    Stmt.demandsAll (paint fill stroke) = stroke.toList.map fun s => .strokeWidth s.width := by
  cases fill <;> cases stroke <;>
    simp [paint, declarations, tinted, untinted, demands_strokeShape, newPaint, setColor, paintFill,
      paintStroke, Tone.expr, FillRule.demands_expr, Stmt.demandsAll, Stmt.demands, Expr.demands,
      Expr.demandsAll, Expr.name]

mutual

/-- The outlines of a figure in the order they are painted. -/
def strokes : Figure → List Stroke
  | .leaf _ _ stroke => stroke.toList
  | .group children => strokesAll children

def strokesAll : List Figure → List Stroke
  | [] => []
  | f :: fs => f.strokes ++ strokesAll fs

end

theorem strokesAll_append (fs gs : List Figure) :
    strokesAll (fs ++ gs) = strokesAll fs ++ strokesAll gs := by
  induction fs with
  | nil => rfl
  | cons f fs ih => simp [strokesAll, ih]

mutual

theorem demands_code : ∀ f : Figure,
    f.code.demands = f.strokes.map fun s => .strokeWidth s.width
  | .leaf outline fill stroke => by
    simp [code, strokes, Expr.demands, Stmt.demandsAll, Stmt.demands, outline.demands_expr,
      demandsAll_paint]
  | .group children => by
    rw [code, strokes, Expr.demands, demandsAll_statements children]

theorem demandsAll_statements : ∀ fs : List Figure,
    Stmt.demandsAll (statements fs) = (strokesAll fs).map fun s => .strokeWidth s.width
  | [] => rfl
  | f :: fs => by
    rw [statements, strokesAll, Stmt.demandsAll, Stmt.demands, demands_code f,
      demandsAll_statements fs, List.map_append]

end

end Figure

/-! ## Elements -/

/-- Whether an outline is drawn of a leaf: the leaf is drawn and its stroke is active, which asks
for a width above zero. -/
def Leaf.IsStroked (l : Leaf) : Prop := l.IsDrawn ∧ l.style.activeStroke?.isSome = true

instance (l : Leaf) : Decidable l.IsStroked :=
  inferInstanceAs (Decidable (l.IsDrawn ∧ l.style.activeStroke?.isSome = true))

namespace Leaf

/-- The outline that is drawn of a leaf. -/
def stroke? (l : Leaf) : Option Stroke := if l.IsDrawn then l.style.strokeForm? else none

/-- A stroke is active only if it has a width. -/
theorem IsStroked.zero_lt_width {l : Leaf} (h : l.IsStroked) :
    0.0 < l.style.effectiveStrokeWidth := by
  obtain ⟨c, hc⟩ := Option.isSome_iff_exists.1 h.2
  have hactive := (Option.filter_eq_some_iff.1 hc).2
  rw [Bool.and_eq_true, decide_eq_true_eq] at hactive
  exact hactive.2

theorem strokesAll_drawForm (l : Leaf) :
    Figure.strokesAll l.drawForm.toList = l.stroke?.toList := by
  by_cases h : l.IsDrawn
  · simp [drawForm, stroke?, h, h.1, h.2, Figure.strokesAll, Figure.strokes]
  · have hnone : ¬ (l.style.paints = true ∧ l.shape.isEmpty = false) := h
    rw [drawForm, stroke?, if_neg hnone, if_neg h]
    rfl

/-- An outline has the width in effect. -/
theorem exists_stroke?_iff (l : Leaf) (n : Hundredths) :
    (∃ s, l.stroke? = some s ∧ s.width = n) ↔
      l.IsStroked ∧ Hundredths.ofFloat l.style.effectiveStrokeWidth = n := by
  by_cases h : l.IsDrawn
  · simp [stroke?, IsStroked, Style.strokeForm?, h, Option.isSome_iff_exists]
  · simp [stroke?, IsStroked, h]

end Leaf

mutual

theorem Figure.strokesAll_drawForm : ∀ e : Element,
    Figure.strokesAll e.drawForm.toList = e.leaves.filterMap Leaf.stroke?
  | .leaf shape style => by
    rw [Element.drawForm, Element.leaves, Leaf.strokesAll_drawForm]
    cases h : (Leaf.mk shape style).stroke? <;> simp [h]
  | .group children style => by
    rw [Element.drawForm, Element.leaves, ← Figure.strokesAll_drawForms children]
    simp [Figure.strokesAll, Figure.strokes]

theorem Figure.strokesAll_drawForms : ∀ es : List Element,
    Figure.strokesAll (Element.drawForms es) = (Element.leavesAll es).filterMap Leaf.stroke?
  | [] => rfl
  | e :: es => by
    rw [Element.drawForms, Element.leavesAll, Figure.strokesAll_append, List.filterMap_append,
      Figure.strokesAll_drawForm e, Figure.strokesAll_drawForms es]

end

/-! ## Accessors -/

/-- Whether neither side is at most zero, which what is no number is not either. -/
def Rect.HasArea (r : Rect Float) : Prop := ¬ r.width ≤ 0.0 ∧ ¬ r.height ≤ 0.0

instance (r : Rect Float) : Decidable r.HasArea :=
  inferInstanceAs (Decidable (¬ r.width ≤ 0.0 ∧ ¬ r.height ≤ 0.0))

namespace Transform

/-- What the sides of the picture are divided by. -/
def sides : Transform → List Hundredths
  | .identity => []
  | .scale width height _ => [width, height]

theorem demands_expr (t : Transform) : t.expr.demands = t.sides.map .divisor := by
  cases t with
  | identity => rfl
  | scale width height shift => cases shift <;> rfl

theorem sides_ofViewBox (r : Rect Float) :
    (ofViewBox r).sides = if r.HasArea then [.ofFloat r.width, .ofFloat r.height] else [] := by
  by_cases h : r.HasArea
  · simp [ofViewBox, sides, h, h.1, h.2]
  · have hguard : (r.width ≤ 0.0 || r.height ≤ 0.0) = true := by
      rw [Bool.or_eq_true, decide_eq_true_eq, decide_eq_true_eq]
      exact or_iff_not_and_not.2 h
    rw [ofViewBox, if_pos hguard, if_neg h]
    rfl

end Transform

namespace Accessor

variable {d : Document} {options : Options} {a : Accessor}

/-- The numbers in the code of an accessor that have to be positive. -/
def demands (a : Accessor) : List Demand := Stmt.demandsAll a.body

theorem demands_eq (a : Accessor) :
    a.demands =
      a.transform.sides.map .divisor ++
        (Figure.strokesAll a.figures).map fun s => .strokeWidth s.width := by
  have hsize : a.sizeStatement.demands = [] := by
    unfold sizeStatement
    split <;> rfl
  have hkey : a.keyStatement.demands = [] := by
    unfold keyStatement
    split <;> rfl
  simp [demands, body, prelude, Stmt.demandsAll_append, Stmt.demandsAll, Stmt.demands, hsize, hkey,
    lookupStatement, storeStatement, Expr.demands, Expr.demandsAll, Expr.name,
    Transform.demands_expr, Figure.demandsAll_statements]

theorem ofDocument_parts (h : ofDocument d options = .ok a) :
    a.transform = .ofViewBox d.viewBox ∧ a.figures = Element.drawForms d.children := by
  rw [ofDocument, Figure.ofElements_eq] at h
  cases hname : Naming.Identifier.ofTitle? d.title with
  | none => simp [hname] at h
  | some name =>
    cases hfault : (Element.leavesAll d.children).findSome? Leaf.fault? with
    | some c => simp [hname, hfault, unlessFault] at h
    | none =>
      simp only [hname, hfault, unlessFault, Except.ok.injEq] at h
      subst h
      exact ⟨rfl, rfl⟩

/-- The code of a document divides by the sides of its view box if that has an area, and draws the
outlines of its leaves. -/
theorem demands_ofDocument (h : ofDocument d options = .ok a) :
    a.demands =
      (Transform.ofViewBox d.viewBox).sides.map .divisor ++
        ((Element.leavesAll d.children).filterMap Leaf.stroke?).map
          fun s => .strokeWidth s.width := by
  obtain ⟨htransform, hfigures⟩ := ofDocument_parts h
  rw [demands_eq, htransform, hfigures, Figure.strokesAll_drawForms]

theorem divisor_mem_demands_iff (h : ofDocument d options = .ok a) (n : Hundredths) :
    .divisor n ∈ a.demands ↔
      d.viewBox.HasArea ∧ (n = .ofFloat d.viewBox.width ∨ n = .ofFloat d.viewBox.height) := by
  rw [demands_ofDocument h, Transform.sides_ofViewBox]
  by_cases harea : d.viewBox.HasArea <;> simp [harea]

theorem strokeWidth_mem_demands_iff (h : ofDocument d options = .ok a) (n : Hundredths) :
    .strokeWidth n ∈ a.demands ↔
      ∃ l ∈ Element.leavesAll d.children,
        l.IsStroked ∧ Hundredths.ofFloat l.style.effectiveStrokeWidth = n := by
  simp only [← Leaf.exists_stroke?_iff]
  rw [demands_ofDocument h]
  simp only [List.mem_append, List.mem_map, List.mem_filterMap, reduceCtorEq, and_false,
    exists_false, false_or, Demand.strokeWidth.injEq]
  constructor
  · rintro ⟨s, ⟨l, hl, hs⟩, hwidth⟩
    exact ⟨l, hl, s, hs, hwidth⟩
  · rintro ⟨l, hl, s, hs, hwidth⟩
    exact ⟨s, ⟨l, hl, hs⟩, hwidth⟩

/-- A number that has to be positive has a literal that is, or one that shows nothing. -/
theorem number_pos_or_tokens (h : ofDocument d options = .ok a) {demand : Demand}
    (hmem : demand ∈ a.demands) :
    0 < demand.number.value ∨ numberTokens demand.number = [.atom "0.00"] := by
  have hnonneg : 0 ≤ demand.number.value := by
    cases demand with
    | divisor n =>
      obtain ⟨⟨hwidth, hheight⟩, rfl | rfl⟩ := (divisor_mem_demands_iff h n).1 hmem
      · exact Hundredths.value_ofFloat_nonneg hwidth
      · exact Hundredths.value_ofFloat_nonneg hheight
    | strokeWidth n =>
      obtain ⟨l, -, hl, rfl⟩ := (strokeWidth_mem_demands_iff h n).1 hmem
      exact Hundredths.value_ofFloat_nonneg (Decimal.not_le_zero_of_zero_lt hl.zero_lt_width)
  rw [numberTokens_eq_zero_iff]
  rcases hnonneg.lt_or_eq with hpos | hzero
  · exact .inl hpos
  · exact .inr hzero.symm

/-- The picture is divided by positive numbers exactly if a view box with an area has finite sides
above half a hundredth, and outlines are of positive width exactly if all those that are drawn are
of a finite width above that. Otherwise there is a literal that shows nothing; none is negative. -/
theorem demands_pos_iff (h : ofDocument d options = .ok a) :
    ((∀ n, .divisor n ∈ a.demands → 0 < n.value) ↔
      (d.viewBox.HasArea → Visible d.viewBox.width ∧ Visible d.viewBox.height)) ∧
    ((∀ n, .strokeWidth n ∈ a.demands → 0 < n.value) ↔
      ∀ l ∈ Element.leavesAll d.children, l.IsStroked → Visible l.style.effectiveStrokeWidth) ∧
    ∀ demand ∈ a.demands,
      0 < demand.number.value ∨ numberTokens demand.number = [.atom "0.00"] := by
  refine ⟨?_, ?_, fun demand hmem => number_pos_or_tokens h hmem⟩
  · simp only [divisor_mem_demands_iff h, ← Hundredths.value_ofFloat_pos_iff]
    constructor
    · intro hpos harea
      exact ⟨hpos _ ⟨harea, .inl rfl⟩, hpos _ ⟨harea, .inr rfl⟩⟩
    · rintro hpos n ⟨harea, rfl | rfl⟩
      · exact (hpos harea).1
      · exact (hpos harea).2
  · simp only [strokeWidth_mem_demands_iff h, ← Hundredths.value_ofFloat_pos_iff]
    constructor
    · intro hpos l hl hstroked
      exact hpos _ ⟨l, hl, hstroked, rfl⟩
    · rintro hpos n ⟨l, hl, hstroked, rfl⟩
      exact hpos l hl hstroked

/-- A line of some width in a view box as wide as that. -/
def hairline (width : Float) : Document where
  title := "a"
  viewBox := ⟨0.0, 0.0, width, 1.0⟩
  children := [.leaf (.line ⟨0.0, 0.0⟩ ⟨0.0, 1.0⟩)
    { stroke := some .black, strokeWidth := some width }]

theorem demands_pos_iff_hairline :
    ∃ a, ofDocument (hairline 0.006) {} = .ok a ∧
    ((∀ n, .divisor n ∈ a.demands → 0 < n.value) ↔
      ((hairline 0.006).viewBox.HasArea →
        Visible (hairline 0.006).viewBox.width ∧ Visible (hairline 0.006).viewBox.height)) ∧
    ((∀ n, .strokeWidth n ∈ a.demands → 0 < n.value) ↔
      ∀ l ∈ Element.leavesAll (hairline 0.006).children,
        l.IsStroked → Visible l.style.effectiveStrokeWidth) ∧
    ∀ demand ∈ a.demands,
      0 < demand.number.value ∨ numberTokens demand.number = [.atom "0.00"] := by
  have hsome : (ofDocument (hairline 0.006) {}).toOption.isSome = true := by decide +kernel
  obtain ⟨a, ha⟩ := (isSome_toOption_iff _).1 hsome
  exact ⟨a, ha, demands_pos_iff ha⟩

/-- A view box with an area is not enough, nor is a width above zero: a thousandth is written as
nothing. -/
theorem not_demands_pos :
    (¬ ∀ (d : Document) (options : Options) (a : Accessor), ofDocument d options = .ok a →
      ∀ n, .divisor n ∈ a.demands → 0 < n.value) ∧
    ¬ ∀ (d : Document) (options : Options) (a : Accessor), ofDocument d options = .ok a →
      ∀ n, .strokeWidth n ∈ a.demands → 0 < n.value := by
  have hsome : (ofDocument (hairline 0.001) {}).toOption.isSome = true := by decide +kernel
  obtain ⟨a, ha⟩ := (isSome_toOption_iff _).1 hsome
  have hzero : Hundredths.ofFloat 0.001 = ⟨0⟩ := by decide +kernel
  have hnothing : ¬ 0 < (⟨0⟩ : Hundredths).value := by simp [Hundredths.value]
  have harea : (hairline 0.001).viewBox.HasArea := by decide +kernel
  have hstroked : ∀ l ∈ Element.leavesAll (hairline 0.001).children, l.IsStroked := by
    decide +kernel
  constructor
  · intro h
    have hmem := (divisor_mem_demands_iff ha _).2 ⟨harea, .inl rfl⟩
    have hpos := h _ _ _ ha _ hmem
    exact hnothing (hzero ▸ hpos)
  · intro h
    have hmem := (strokeWidth_mem_demands_iff ha _).2
      ⟨_, List.mem_singleton_self _, hstroked _ (List.mem_singleton_self _), rfl⟩
    have hpos := h _ _ _ ha _ hmem
    exact hnothing (hzero ▸ hpos)

end Accessor

end IconCode

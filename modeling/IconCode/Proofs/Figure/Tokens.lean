import IconCode.Code.ExprTokens
import IconCode.Figure.Code
import IconCode.Figure.Reading
import IconCode.Proofs.Decimal.Digits

/-!
# Reading figures back from their tokens

Every part of a figure is read back from the tokens of its code: numbers, commands, outlines and
paints, and with them figures in figures. So different figures have different tokens.

* `Code.Token.numbersIn_argumentTokens`: numbers as arguments.
* `Outline.read?_append`: how an outline is built.
* `Figure.fill_read?_paint`, `Figure.stroke_read?_paint`: how the inside and the outline are
  painted.
* `Figure.readAll_append`: figures, with all that is nested in them.
* `Figure.code_tokens_injective`: the tokens of a figure are those of no other one.
-/

namespace IconCode

open Code
open Code.Token
open Decimal (Hundredths)

namespace Code

/-! ## Numbers -/

namespace Token

/-- Words that are no numbers are passed over. -/
theorem numbersIn_atom_cons {s : String} (h : s.toList.head?.any Char.isDigit = false)
    (hs : (s == "-") = false) (ts : List Token) : numbersIn (.atom s :: ts) = numbersIn ts := by
  simp only [numbersIn, numbersFrom, h, hs, Bool.false_eq_true, if_false]

theorem numbersFrom_magnitude (h : Hundredths) (ts : List Token) :
    numbersFrom h.isNegative (.atom (String.ofList h.magnitude) :: ts) = h :: numbersIn ts := by
  obtain ⟨c, s, hs, hc⟩ := h.exists_magnitude_eq_cons
  have hfirst : (String.ofList h.magnitude).toList.head?.any Char.isDigit = true := by
    rw [String.toList_ofList, hs]
    exact hc
  rw [numbersFrom, if_pos hfirst, String.toList_ofList, h.ofText_magnitude]
  rfl

theorem numbersIn_numberTokens_append (h : Hundredths) (ts : List Token) :
    numbersIn (numberTokens h ++ ts) = h :: numbersIn ts := by
  have hmagnitude := numbersFrom_magnitude h ts
  unfold numberTokens
  cases hsign : h.isNegative with
  | true =>
    rw [hsign] at hmagnitude
    exact hmagnitude
  | false =>
    rw [hsign] at hmagnitude
    exact hmagnitude

end Token

/-- The tokens of a number say where they end. -/
theorem numberTokens_append_inj {a b : Hundredths} {xs ys : List Token}
    (h : numberTokens a ++ xs = numberTokens b ++ ys) : a = b ∧ xs = ys := by
  have hnumbers := congrArg numbersIn h
  rw [numbersIn_numberTokens_append, numbersIn_numberTokens_append, List.cons.injEq] at hnumbers
  obtain ⟨rfl, -⟩ := hnumbers
  exact ⟨rfl, List.append_cancel_left h⟩

/-! ## Arguments -/

/-- The tokens of numbers as arguments. -/
def argumentTokens (xs : List Hundredths) : List Token := Expr.listTokens (xs.map .number)

/-- The tokens of the arguments after the first one. -/
def moreArgumentTokens : List Hundredths → List Token
  | [] => []
  | x :: xs => .atom "," :: argumentTokens (x :: xs)

theorem argumentTokens_cons (x : Hundredths) (xs : List Hundredths) :
    argumentTokens (x :: xs) = numberTokens x ++ moreArgumentTokens xs := by
  cases xs <;> simp [argumentTokens, moreArgumentTokens, Expr.listTokens, Expr.tokens]

theorem Token.numbersIn_argumentTokens (xs : List Hundredths) :
    numbersIn (argumentTokens xs) = xs := by
  induction xs with
  | nil => rfl
  | cons x xs ih =>
    rw [argumentTokens_cons, numbersIn_numberTokens_append]
    congr 1
    cases xs with
    | nil => rfl
    | cons y ys => exact (numbersIn_atom_cons rfl rfl _).trans ih

end Code

/-! ## Commands -/

namespace Command

/-- The numbers of a command in their order. -/
def numbers : Command Hundredths → List Hundredths
  | .moveTo p => [p.x, p.y]
  | .lineTo p => [p.x, p.y]
  | .quadratic c p => [c.x, c.y, p.x, p.y]
  | .cubic c d p => [c.x, c.y, d.x, d.y, p.x, p.y]
  | .close => []

theorem tokens_statement (c : Command Hundredths) :
    c.statement.tokens =
      [.atom "builder", .atom ".", .atom c.builderCall.1,
        .parenthesized (argumentTokens c.numbers), .atom ";"] := by
  cases c <;> rfl

theorem ofCall?_builderCall (c : Command Hundredths) :
    ofCall? c.builderCall.1 c.numbers = some c := by
  cases c <;> rfl

theorem read_statement_append (c : Command Hundredths) {s : String} (ts : List Token) :
    read (c.statement.tokens ++ .atom s :: ts) = c :: read (.atom s :: ts) := by
  have hcall : (ofCall? c.builderCall.1 (numbersIn (argumentTokens c.numbers))).toList = [c] := by
    rw [numbersIn_argumentTokens, ofCall?_builderCall]
    rfl
  rw [tokens_statement]
  change (ofCall? c.builderCall.1 (numbersIn (argumentTokens c.numbers))).toList ++ _ = _
  rw [hcall]
  rfl

end Command

/-! ## Outlines -/

namespace Outline

/-- The last call to a path builder. -/
def finishTokens : List Token :=
  [.atom "builder", .atom ".", .atom "finish", .parenthesized []]

def traceTokens (cs : List (Command Hundredths)) : List Token :=
  Stmt.listTokens (cs.map Command.statement) ++ finishTokens

theorem traceTokens_cons (c : Command Hundredths) (cs : List (Command Hundredths)) :
    traceTokens (c :: cs) = c.statement.tokens ++ traceTokens cs := by
  simp [traceTokens, Stmt.listTokens]

theorem exists_traceTokens_eq_cons (cs : List (Command Hundredths)) :
    ∃ ts, traceTokens cs = .atom "builder" :: ts := by
  cases cs with
  | nil => exact ⟨_, rfl⟩
  | cons c cs =>
    rw [traceTokens_cons, Command.tokens_statement]
    exact ⟨_, rfl⟩

theorem read_traceTokens (cs : List (Command Hundredths)) : Command.read (traceTokens cs) = cs := by
  induction cs with
  | nil => rfl
  | cons c cs ih =>
    obtain ⟨ts, hts⟩ := exists_traceTokens_eq_cons cs
    rw [hts] at ih
    rw [traceTokens_cons, hts, Command.read_statement_append, ih]

/-- The numbers of a frame in their order. -/
def frameNumbers (r : Rect Hundredths) : List Hundredths := [r.x, r.y, r.width, r.height]

/-- A frame that goes on to be a path by a method of the drawing library. -/
def frameTokens (r : Rect Hundredths) (method shape : String) : List Token :=
  [.atom "tiny_skia", .atom "::", .atom "Rect", .atom "::", .atom "from_xywh",
    .parenthesized (argumentTokens (frameNumbers r)), .atom ".", .atom method,
    .parenthesized
      [.atom "tiny_skia", .atom "::", .atom "PathBuilder", .atom "::", .atom shape]]

theorem tokens_rectangle (r : Rect Hundredths) :
    (rectangle r).expr.tokens = frameTokens r "map" "from_rect" := rfl

theorem tokens_oval (r : Rect Hundredths) :
    (oval r).expr.tokens = frameTokens r "and_then" "from_oval" := rfl

theorem tokens_trace (cs : List (Command Hundredths)) :
    (trace cs).expr.tokens =
      [.braced ([.atom "let", .atom "mut", .atom "builder", .atom "=", .atom "tiny_skia",
        .atom "::", .atom "PathBuilder", .atom "::", .atom "new", .parenthesized [],
        .atom ";"] ++ traceTokens cs)] := by
  simp [expr, Expr.tokens, Stmt.listTokens, Stmt.tokens, Stmt.listTokens_append, traceTokens,
    finishTokens, Expr.name, skia, pathTokens, Expr.listTokens]

theorem read?_frameTokens_append (r : Rect Hundredths) (method shape : String) (ts : List Token) :
    read? (frameTokens r method shape ++ ts) =
      if (frameTokens r method shape ++ ts).any (isAtom "map") then some (.rectangle r)
      else some (.oval r) := by
  have hnumbers : numbersIn (inner (after "from_xywh" (frameTokens r method shape ++ ts))) =
      [r.x, r.y, r.width, r.height] := numbersIn_argumentTokens (frameNumbers r)
  rw [read?, hnumbers]
  intro delimiter inside rest heq
  cases heq

theorem read?_append (o : Outline) {ts : List Token} (h : ts.any (isAtom "map") = false) :
    read? (o.expr.tokens ++ ts) = some o := by
  cases o with
  | rectangle r =>
    rw [tokens_rectangle, read?_frameTokens_append]
    rfl
  | oval r =>
    rw [tokens_oval, read?_frameTokens_append, List.any_append, h]
    rfl
  | trace cs =>
    obtain ⟨rest, hrest⟩ := exists_traceTokens_eq_cons cs
    have hread := read_traceTokens cs
    rw [hrest] at hread
    rw [tokens_trace, hrest]
    change some (trace (Command.read (.atom "builder" :: rest))) = _
    rw [hread]

end Outline

/-! ## Paint -/

/-- The numbers of a colour in their order. -/
def Tone.numbers (t : Tone) : List Hundredths := [t.r, t.g, t.b, t.a]

theorem Tone.read?_eq_some {paint : String} {ts : List Token} {t : Tone}
    (h : inner (after "set_color" (after paint (inner (after "else" ts)))) = t.expr.tokens) :
    Tone.read? paint ts = some t := by
  have hnumbers : numbersIn (inner (after "from_rgba" t.expr.tokens)) = t.numbers :=
    numbersIn_argumentTokens t.numbers
  simp only [read?, h, hnumbers]
  rfl

namespace Figure

variable (fill : Option Fill) (stroke : Option Stroke)

/-- What is painted without a tint. -/
theorem inner_after_else_paint :
    inner (after "else" (Stmt.listTokens (paint fill stroke))) =
      Stmt.listTokens (untinted fill stroke) := by
  cases fill <;> cases stroke <;> rfl

theorem tone_read?_fill_paint :
    Tone.read? "fill_paint" (Stmt.listTokens (paint fill stroke)) = fill.map (·.tone) := by
  cases fill with
  | none => cases stroke <;> rfl
  | some f =>
    refine Tone.read?_eq_some ?_
    rw [inner_after_else_paint]
    cases stroke <;> rfl

theorem tone_read?_stroke_paint :
    Tone.read? "stroke_paint" (Stmt.listTokens (paint fill stroke)) = stroke.map (·.tone) := by
  cases stroke with
  | none => cases fill <;> rfl
  | some s =>
    refine Tone.read?_eq_some ?_
    rw [inner_after_else_paint]
    cases fill <;> rfl

theorem fill_read?_paint : Fill.read? (Stmt.listTokens (paint fill stroke)) = fill := by
  rw [Fill.read?, tone_read?_fill_paint]
  cases fill with
  | none => rfl
  | some f =>
    obtain ⟨rule, tone⟩ := f
    cases rule <;> cases stroke <;> rfl

theorem inner_after_stroke_paint (s : Stroke) :
    inner (after "Stroke" (Stmt.listTokens (paint fill (some s)))) =
      [.atom "width", .atom ":"] ++ numberTokens s.width ++ [.atom ",", .atom ".."] ++
        (Expr.call (skia ["Stroke", "default"]) []).tokens := by
  cases fill <;> rfl

theorem stroke_read?_paint : Stroke.read? (Stmt.listTokens (paint fill stroke)) = stroke := by
  cases stroke with
  | none => cases fill <;> rfl
  | some s =>
    have hwidth : numbersIn (inner (after "Stroke" (Stmt.listTokens (paint fill (some s))))) =
        [s.width] := by
      rw [inner_after_stroke_paint, List.append_assoc, List.append_assoc]
      exact numbersIn_numberTokens_append s.width _
    rw [Stroke.read?, hwidth, tone_read?_stroke_paint]
    rfl

/-! ## Figures -/

/-- What stands between the braces of a figure's block. -/
def insideTokens : Figure → List Token
  | .leaf outline fill stroke =>
    [.atom "let", .atom "path", .atom "="] ++ outline.expr.tokens ++
      ([.atom ";", .atom "if", .atom "let", .atom "Some", .parenthesized [.atom "path"], .atom "=",
        .atom "path", .braced (Stmt.listTokens (paint fill stroke))])
  | .group children => Stmt.listTokens (statements children)

theorem tokens_code (f : Figure) : f.code.tokens = [.braced f.insideTokens] := by
  cases f with
  | leaf outline fill stroke =>
    simp [code, Expr.tokens, Stmt.listTokens, Stmt.tokens, insideTokens, Expr.tokens.ifSomeTokens]
  | group children => simp [code, Expr.tokens, insideTokens]

theorem listTokens_statements_cons (f : Figure) (fs : List Figure) :
    Stmt.listTokens (statements (f :: fs)) =
      .braced f.insideTokens :: Stmt.listTokens (statements fs) := by
  rw [statements, Stmt.listTokens, Stmt.tokens, tokens_code]
  rfl

theorem read?_leaf (outline : Outline) :
    read? (.braced (leaf outline fill stroke).insideTokens) = some (.leaf outline fill stroke) := by
  have houtline :
      Outline.read? (after "=" (leaf outline fill stroke).insideTokens) = some outline :=
    outline.read?_append rfl
  have hpaint : lastInner (leaf outline fill stroke).insideTokens =
      Stmt.listTokens (paint fill stroke) := by
    rw [lastInner, insideTokens, List.getLast?_append]
    rfl
  have hfirst : (leaf outline fill stroke).insideTokens.head?.all isGroup = false := rfl
  simp only [Token.braced, read?, houtline, hpaint, hfirst, fill_read?_paint, stroke_read?_paint,
    Bool.false_eq_true, if_false, Option.map_some]

/-- The children of a group are read up to the first word after them. -/
theorem head?_all_isGroup_statements (figures : List Figure) :
    (Stmt.listTokens (statements figures)).head?.all isGroup = true := by
  cases figures with
  | nil => rfl
  | cons f fs =>
    rw [listTokens_statements_cons]
    rfl

mutual

theorem read?_code : ∀ f : Figure, read? (.braced f.insideTokens) = some f
  | .leaf outline fill stroke => read?_leaf fill stroke outline
  | .group children => by
    have hchildren : readAll (Stmt.listTokens (statements children) ++ []) = children :=
      readAll_append children rfl
    rw [List.append_nil] at hchildren
    rw [insideTokens, Token.braced, read?, head?_all_isGroup_statements, hchildren]
    rfl

theorem readAll_append : ∀ (fs : List Figure) {ts : List Token}, ts.head?.any isGroup = false →
    readAll (Stmt.listTokens (statements fs) ++ ts) = fs
  | [], [], _ => rfl
  | [], .atom _ :: _, _ => rfl
  | [], .group _ _ :: _, h => by cases h
  | f :: fs, ts, h => by
    rw [listTokens_statements_cons, List.cons_append, readAll, read?_code f]
    simp only [readAll_append fs h]

end

/-- Different figures have different code. -/
theorem code_tokens_injective {f g : Figure} (h : f.code.tokens = g.code.tokens) : f = g := by
  rw [tokens_code, tokens_code, List.cons.injEq] at h
  have hread := congrArg read? h.1
  rw [read?_code, read?_code] at hread
  exact Option.some.inj hread

end Figure

end IconCode

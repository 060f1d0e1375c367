import IconCode.Accessor.Reading
import IconCode.Proofs.Figure.Tokens

/-!
# Reading accessors back from their tokens

The names, the options, the size, the transform and the figures of an accessor are all in its code,
so its tokens are laid out as its own text.

* `Accessor.read_tokens`: an accessor is read back from its tokens.
* `Accessor.ofTokens?_eq_some_iff`: which tokens are those of an accessor.
* `layout_tokens`: the layout accepts the tokens of every accessor.
-/

namespace IconCode

open Code
open Code.Token
open Decimal (Hundredths)

/-! ## Words -/

theorem wordsOf_of_not_mem {w : List Char} (h : ' ' ∉ w) : wordsOf w = [w] := by
  induction w with
  | nil => rfl
  | cons c w ih =>
    rw [List.mem_cons, not_or] at h
    rw [wordsOf, ih h.2]
    exact if_neg (Ne.symm h.1)

theorem wordsOf_append {w : List Char} (h : ' ' ∉ w) (s : List Char) :
    wordsOf (w ++ ' ' :: s) = w :: wordsOf s := by
  induction w with
  | nil =>
    cases hs : wordsOf s with
    | nil => exact absurd hs (wordsOf_ne_nil s)
    | cons v vs => simp [wordsOf, hs]
  | cons c w ih =>
    rw [List.mem_cons, not_or] at h
    rw [List.cons_append, wordsOf, ih h.2]
    exact if_neg (Ne.symm h.1)

namespace Code.Token

theorem isAtom_self (s : String) : isAtom s (.atom s) = true := beq_self_eq_true s

variable {s : String} {ts : List Token} (h : ts.all (fun t => !t.isAtom s) = true)
  (rest : List Token)

include h

theorem before_append : before s (ts ++ .atom s :: rest) = ts := by
  rw [List.all_eq_true] at h
  rw [before, List.takeWhile_append_of_pos h, List.takeWhile_cons, isAtom_self]
  exact List.append_nil ts

theorem after_append : after s (ts ++ .atom s :: rest) = rest := by
  rw [List.all_eq_true] at h
  rw [after, List.dropWhile_append_of_pos h, List.dropWhile_cons, isAtom_self]
  rfl

end Code.Token

theorem lastInner_append (ts : List Token) (d : Delimiter) (inside : List Token) :
    lastInner (ts ++ [.group d inside]) = inside := by
  rw [lastInner, List.getLast?_append]
  rfl

/-! ## Transforms -/

namespace Transform

/-- The sides that the width and the height are divided by. -/
theorem numbersIn_ratios (width height : Hundredths) :
    numbersIn (Expr.listTokens [.ratio "width" width, .ratio "height" height]) =
      [width, height] := by
  have htokens : Expr.listTokens [.ratio "width" width, .ratio "height" height] =
      [.atom "width", .atom "as", .atom "f32", .atom "/"] ++ (numberTokens width ++ .atom "," ::
        ([.atom "height", .atom "as", .atom "f32", .atom "/"] ++ (numberTokens height ++ []))) := by
    simp only [Expr.listTokens, Expr.tokens, List.append_assoc, List.append_nil]
  rw [htokens]
  refine (numbersIn_numberTokens_append width _).trans ?_
  congr 1
  exact numbersIn_numberTokens_append height []

theorem read_tokens (t : Transform) : read (.atom "=" :: t.expr.tokens) = t := by
  cases t with
  | identity => rfl
  | scale width height shift =>
    have hsides : numbersIn (inner (after "from_scale"
        (.atom "=" :: (scale width height shift).expr.tokens))) = [width, height] := by
      rw [← numbersIn_ratios]
      cases shift <;> rfl
    rw [read, hsides]
    cases shift with
    | none => rfl
    | some p =>
      have hshift : numbersIn (inner (after "pre_translate"
          (.atom "=" :: (scale width height (some p)).expr.tokens))) = [p.x, p.y] :=
        numbersIn_argumentTokens [p.x, p.y]
      simp only [hshift]

theorem all_tokens (t : Transform) :
    (.atom "=" :: t.expr.tokens).all (fun t => !t.isAtom ";") = true := by
  cases t with
  | identity => rfl
  | scale width height shift => cases shift <;> rfl

end Transform

namespace Accessor

/-! ## Names -/

theorem nameOfCache_cache (name : Naming.Identifier) : nameOfCache name.cache = name := by
  obtain ⟨base⟩ := name
  rw [nameOfCache, Naming.Identifier.toList_cache]
  simp [String.ofList_toList]

/-- A word with another last letter is the name of no cache. -/
theorem isAtom_cache (name : Naming.Identifier) {s : String} (h : s.toList.getLast? ≠ some 'e') :
    isAtom s (.atom name.cache) = false := by
  rw [isAtom, beq_eq_false_iff_ne]
  rintro rfl
  rw [Naming.Identifier.toList_cache, List.getLast?_append] at h
  exact h rfl

/-! ## Sizes -/

theorem toList_pixels (n : Nat) : (pixels n).toList = Decimal.digits n ++ ['u', '3', '2'] := by
  rw [pixels, String.toList_append, String.toList_ofList]
  rfl

theorem pixelsOf_pixels (n : Nat) : pixelsOf (pixels n) = n := by
  have hdigits : ∀ c ∈ Decimal.digits n, c.isDigit = true := fun _ => Decimal.isDigit_of_mem_digits
  have htake : (Decimal.digits n ++ ['u', '3', '2']).takeWhile Char.isDigit = Decimal.digits n := by
    rw [List.takeWhile_append_of_pos hdigits]
    exact List.append_nil _
  rw [pixelsOf, toList_pixels, htake, Decimal.ofDigitChars_digits, Nat.mul_zero, Nat.zero_add]

theorem space_not_mem_pixels (n : Nat) : ' ' ∉ (pixels n).toList := by
  rw [toList_pixels, List.mem_append, not_or]
  refine ⟨?_, by decide⟩
  intro h
  exact absurd (Decimal.isDigit_of_mem_digits h) (by decide)

theorem atoms_pixels (m n : Nat) :
    atoms (pixels m ++ " , " ++ pixels n) = [.atom (pixels m), .atom ",", .atom (pixels n)] := by
  have htext : (pixels m ++ " , " ++ pixels n).toList =
      (pixels m).toList ++ ' ' :: ([','] ++ ' ' :: (pixels n).toList) := by
    rw [String.toList_append, String.toList_append, List.append_assoc]
    rfl
  rw [atoms, htext, wordsOf_append (space_not_mem_pixels m), wordsOf_append (by decide),
    wordsOf_of_not_mem (space_not_mem_pixels n)]
  simp only [List.map_cons, List.map_nil, String.ofList_toList]

variable (a : Accessor)

theorem sides_body :
    sides (Stmt.listTokens a.body) =
      [.atom (pixels a.width), .atom ",", .atom (pixels a.height)] := by
  rw [← atoms_pixels, body, prelude, sizeStatement]
  cases a.sizeInCacheKey <;> rfl

/-! ## Parts -/

theorem frontTokens_all : a.frontTokens.all (fun t => !t.isAtom "fn") = true := by
  have hcache : [Token.atom a.name.cache].all (fun t => !t.isAtom "fn") = true := by
    rw [List.all_cons, isAtom_cache a.name (by decide)]
    rfl
  have hkey : a.keyTypeTokens.all (fun t => !t.isAtom "fn") = true := by
    rw [keyTypeTokens]
    cases a.sizeInCacheKey <;> rfl
  have hvisibility : a.visibilityTokens.all (fun t => !t.isAtom "fn") = true := by
    rw [visibilityTokens]
    cases a.visibility <;> rfl
  simp only [frontTokens, List.all_append, hcache, hkey, hvisibility]
  rfl

/-- The tokens of the body before what is bound to the transform. -/
def preludeTokens : List Token := Stmt.listTokens a.prelude ++ [.atom "let"]

theorem listTokens_body :
    Stmt.listTokens a.body = a.preludeTokens ++ .atom "transform" ::
      (.atom "=" :: a.transform.expr.tokens ++ .atom ";" ::
        (Stmt.listTokens (Figure.statements a.figures) ++ storeStatement.tokens)) := by
  rw [body, Stmt.listTokens_append, preludeTokens, Stmt.listTokens, Stmt.listTokens_append]
  simp [Stmt.tokens, Stmt.listTokens]

theorem preludeTokens_all : a.preludeTokens.all (fun t => !t.isAtom "transform") = true := by
  have hcache : (!isAtom "transform" (.atom a.name.cache) && true) = true := by
    rw [isAtom_cache a.name (by decide)]
    rfl
  rw [preludeTokens, prelude, sizeStatement, keyStatement]
  cases a.sizeInCacheKey <;> exact hcache

/-! ## Whole accessors -/

theorem lastInner_tokens : lastInner a.tokens = Stmt.listTokens a.body := by
  rw [tokens, functionTokens, braces, ← List.cons_append, ← List.append_assoc]
  exact lastInner_append _ _ _

theorem word_after_static_tokens : word (after "static" a.tokens) = a.name.cache := by
  rw [tokens, frontTokens]
  rfl

theorem before_fn_tokens : before "fn" a.tokens = a.frontTokens := by
  rw [tokens, before_append a.frontTokens_all]

theorem after_fn_tokens : after "fn" a.tokens = a.functionTokens := by
  rw [tokens, after_append a.frontTokens_all]

theorem any_size_functionTokens :
    (inner a.functionTokens.tail).any (isAtom "size") = a.sizeInCacheKey := by
  rw [functionTokens, parameterTokens]
  cases a.sizeInCacheKey <;> rfl

theorem isGroup_getLast?_frontTokens :
    a.frontTokens.getLast?.any isGroup = (a.visibility == .crate) := by
  rw [frontTokens, visibilityTokens]
  cases a.visibility <;> simp only [List.getLast?_append] <;> rfl

theorem after_transform_body :
    after "transform" (Stmt.listTokens a.body) =
      .atom "=" :: a.transform.expr.tokens ++ .atom ";" ::
        (Stmt.listTokens (Figure.statements a.figures) ++ storeStatement.tokens) := by
  rw [listTokens_body, after_append a.preludeTokens_all]

theorem read_tokens : read a.tokens = a := by
  have hvisibility : (if a.visibility == .crate then Visibility.crate else .everywhere) =
      a.visibility := by
    cases a.visibility <;> rfl
  have hwidth : pixelsOf (word (sides (Stmt.listTokens a.body))) = a.width := by
    rw [sides_body]
    exact pixelsOf_pixels a.width
  have hheight : pixelsOf (word ((sides (Stmt.listTokens a.body)).drop 2)) = a.height := by
    rw [sides_body]
    exact pixelsOf_pixels a.height
  have hfigures : Figure.readAll (Stmt.listTokens (Figure.statements a.figures) ++
      storeStatement.tokens) = a.figures :=
    Figure.readAll_append a.figures rfl
  simp only [read, word_after_static_tokens, nameOfCache_cache, lastInner_tokens,
    before_fn_tokens, after_fn_tokens, any_size_functionTokens, isGroup_getLast?_frontTokens,
    hvisibility, hwidth, hheight, after_transform_body, before_append a.transform.all_tokens,
    after_append a.transform.all_tokens, Transform.read_tokens, hfigures]

theorem ofTokens?_eq_some_iff {ts : List Token} {a : Accessor} :
    ofTokens? ts = some a ↔ a.tokens = ts := by
  rw [ofTokens?, Option.ite_none_right_eq_some, Option.some.injEq]
  constructor
  · rintro ⟨h, rfl⟩
    exact h
  · rintro rfl
    rw [read_tokens]
    exact ⟨rfl, rfl⟩

end Accessor

/-- The layout of an accessor's tokens is the accessor's text. -/
theorem layout_tokens (a : Accessor) : layout a.tokens = .ok a.source := by
  rw [layout, Accessor.ofTokens?_eq_some_iff.2 rfl]

end IconCode

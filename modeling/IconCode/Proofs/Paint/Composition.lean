import IconCode.Proofs.Paint.Block
import IconCode.Proofs.Paint.Fields

/-!
# Blocks from blocks

Two declaration blocks with a semicolon between them are one block. It is read as the first and then
the second, and declares what the second declares over the first. So a block of any length is the
merge of its clauses.

* `ofBlock_append_eq`: a block of two.
* `ofBlock_eq_foldl_merge`: a block as the merge of its clauses.
* `value?_of_ofBlock`: the last declaration of a property counts.
* `ofBlock_append`: all of this together.
-/

namespace IconCode.Style

open Text (pieces)

/-! ## Clauses over a style -/

/-- A clause goes on top of all that was declared before it. -/
theorem addClause_merge (lower style : Style) (clause : Clause) :
    (lower.merge style).addClause clause = lower.merge <$> style.addClause clause := by
  cases clause with
  | blank => rfl
  | unknown rule => rfl
  | declaration p value =>
    simp only [addClause, map_bind, map_pure, merge_assoc]

theorem addText_eq_merge (style : Style) (clause : List Char) :
    style.addText clause = style.merge <$> empty.addText clause := by
  have h := addClause_merge style empty (.ofText clause)
  rwa [merge_empty] at h

theorem foldlM_addText_eq_merge (style : Style) (clauses : List (List Char)) :
    clauses.foldlM addText style = style.merge <$> clauses.foldlM addText empty := by
  have hstep : ∀ s clause, (style.merge s).addText clause = style.merge <$> s.addText clause :=
    fun s clause => addClause_merge style s (.ofText clause)
  have h := Outcome.foldlM_map style.merge hstep clauses empty
  rwa [merge_empty] at h

/-! ## Two blocks -/

theorem ofBlock_append_eq (a b : List Char) :
    ofBlock (a ++ ';' :: b) = ofBlock a >>= fun first => first.merge <$> ofBlock b := by
  simp only [ofBlock_eq, Text.pieces_append, List.foldlM_append]
  exact congrArg _ (funext fun first => foldlM_addText_eq_merge first _)

/-! ## Many clauses -/

theorem ofBlock_of_not_mem {clause : List Char} (h : ';' ∉ clause) :
    ofBlock clause = empty.addText clause := by
  rw [ofBlock_eq, Text.pieces_of_not_mem h, List.foldlM_cons]
  exact bind_pure _

theorem foldlM_addText_eq_foldl (style : Style) (clauses : List (List Char)) :
    clauses.foldlM addText style = List.foldl merge style <$> clauses.mapM empty.addText := by
  induction clauses generalizing style with
  | nil => simp
  | cons clause clauses ih =>
    rw [List.foldlM_cons, addText_eq_merge, bind_map_left, List.mapM_cons, map_bind]
    refine congrArg _ (funext fun declared => ?_)
    rw [ih, map_bind]
    simp only [map_pure, List.foldl_cons]
    exact map_eq_pure_bind _ _

theorem ofBlock_eq_foldl_merge (s : List Char) :
    ofBlock s = List.foldl merge empty <$> (pieces ';' s).mapM ofBlock := by
  have hclauses : (pieces ';' s).mapM ofBlock = (pieces ';' s).mapM empty.addText := by
    have hmem : ∀ c ∈ pieces ';' s, ofBlock c = empty.addText c :=
      fun c hc => ofBlock_of_not_mem (Text.not_mem_of_mem_pieces hc)
    generalize pieces ';' s = clauses at hmem
    induction clauses with
    | nil => rfl
    | cons c clauses ih =>
      rw [List.forall_mem_cons] at hmem
      rw [List.mapM_cons, List.mapM_cons, hmem.1, ih hmem.2]
  rw [ofBlock_eq, foldlM_addText_eq_foldl, hclauses]

/-! ## Values -/

/-- The value that a clause declares for a property, if it declares one. -/
def Clause.value? (p : Property) : Clause → Option p.Value
  | .blank | .unknown _ => none
  | .declaration q value => if q = p then (p.read value).toOption else none

theorem value?_addClause {style style' : Style} {clause : Clause}
    (h : (style.addClause clause).result = .ok style') (p : Property) :
    style'.value? p = (clause.value? p).or (style.value? p) := by
  cases clause with
  | blank =>
    cases h
    rfl
  | unknown rule =>
    cases h
    rfl
  | declaration q value =>
    simp only [addClause, Outcome.result_bind_ok_iff, Outcome.result_pure, Except.ok.injEq] at h
    obtain ⟨declared, hd, rfl⟩ := h
    change q.declare value = .ok declared at hd
    rw [Property.declare_eq, map_ok_iff] at hd
    obtain ⟨x, hx, rfl⟩ := hd
    rw [value?_merge, Clause.value?]
    by_cases hq : q = p
    · subst hq
      rw [value?_only, if_pos rfl, hx]
      rfl
    · rw [value?_only_of_ne hq, if_neg hq]

theorem value?_foldlM_addText {clauses : List (List Char)} {style style' : Style}
    (h : (clauses.foldlM addText style).result = .ok style') (p : Property) :
    style'.value? p =
      ((clauses.map Clause.ofText).reverse.findSome? (·.value? p)).or (style.value? p) := by
  induction clauses generalizing style with
  | nil =>
    cases h
    rfl
  | cons clause clauses ih =>
    rw [List.foldlM_cons, Outcome.result_bind_ok_iff] at h
    obtain ⟨t, ht, h⟩ := h
    rw [ih h, value?_addClause ht, List.map_cons, List.reverse_cons, List.findSome?_append,
      List.findSome?_singleton, Option.or_assoc]

theorem value?_of_ofBlock {s : List Char} {style : Style} (h : (ofBlock s).result = .ok style)
    (p : Property) :
    style.value? p = ((pieces ';' s).map Clause.ofText).reverse.findSome? (·.value? p) := by
  rw [ofBlock_eq] at h
  rw [value?_foldlM_addText h, value?_empty, Option.or_none]

/-! ## Composition -/

/-- A block of two fails as the first one does, and nothing is reported after that. If the first one
declares a style, the reports of the second follow, which fails as it does by itself or goes on top.
Merging is associative and has the empty style as its unit; so a block is the merge of its clauses,
and has for each property the last value that one of them declares. -/
theorem ofBlock_append (a b : List Char) :
    ((∀ e, (ofBlock a).result = .error e →
        ofBlock (a ++ ';' :: b) = ⟨(ofBlock a).diagnostics, .error e⟩) ∧
      ∀ first, (ofBlock a).result = .ok first →
        (ofBlock (a ++ ';' :: b)).diagnostics =
          (ofBlock a).diagnostics ++ (ofBlock b).diagnostics ∧
        (∀ e, (ofBlock b).result = .error e → (ofBlock (a ++ ';' :: b)).result = .error e) ∧
        ∀ second, (ofBlock b).result = .ok second →
          (ofBlock (a ++ ';' :: b)).result = .ok (first.merge second)) ∧
      ((∀ r s t : Style, (r.merge s).merge t = r.merge (s.merge t)) ∧
        ∀ s : Style, empty.merge s = s ∧ s.merge empty = s) ∧
      ∀ s : List Char,
        ofBlock s = List.foldl merge empty <$> (pieces ';' s).mapM ofBlock ∧
        ∀ style, (ofBlock s).result = .ok style → ∀ p : Property,
          style.value? p = ((pieces ';' s).map Clause.ofText).reverse.findSome? (·.value? p) := by
  refine ⟨⟨?_, ?_⟩, ⟨merge_assoc, fun s => ⟨empty_merge s, merge_empty s⟩⟩,
    fun s => ⟨ofBlock_eq_foldl_merge s, fun style h => value?_of_ofBlock h⟩⟩
  · intro e he
    rw [ofBlock_append_eq, Outcome.bind_of_error he]
  · intro first hfirst
    have happend : ofBlock (a ++ ';' :: b) =
        ⟨(ofBlock a).diagnostics ++ (ofBlock b).diagnostics,
          (ofBlock b).result.map first.merge⟩ := by
      rw [ofBlock_append_eq, Outcome.bind_of_ok hfirst, Outcome.diagnostics_map,
        Outcome.result_map]
    refine ⟨?_, ?_, ?_⟩
    · rw [happend]
    · intro e he
      rw [happend, he]
      rfl
    · intro second hsecond
      rw [happend, hsecond]
      rfl

theorem ofBlock_append_overridden :
    ofBlock "fill: red; junk; FILL :#0f0;opacity: .5".toList =
        ⟨[.unknownStyleRule "junk"], .ok { fill := some (.ofBytes 0 255 0), opacity := some 0.5 }⟩ ∧
      ofBlock "junk; fill: x; stroke: red".toList =
        ⟨[.unknownStyleRule "junk"], .error (.invalidColor "x")⟩ := by
  refine ⟨?_, ?_⟩
  · have hfirst : (ofBlock "fill: red; junk".toList).result =
        .ok { fill := some (.ofBytes 255 0 0) } := toOption_eq_some_iff.1 (by decide +kernel)
    have hsecond : (ofBlock " FILL :#0f0;opacity: .5".toList).result =
        .ok { fill := some (.ofBytes 0 255 0), opacity := some 0.5 } :=
      toOption_eq_some_iff.1 (by decide +kernel)
    obtain ⟨hreports, -, hok⟩ := (ofBlock_append "fill: red; junk".toList
      " FILL :#0f0;opacity: .5".toList).1.2 _ hfirst
    exact Outcome.ext (hreports.trans (by decide +kernel)) (hok _ hsecond)
  · have herror : (ofBlock "junk; fill: x".toList).result = .error (.invalidColor "x") :=
      Outcome.error?_eq_some_iff.1 (by decide +kernel)
    have hreports : (ofBlock "junk; fill: x".toList).diagnostics = [.unknownStyleRule "junk"] := by
      decide +kernel
    rw [← hreports]
    exact (ofBlock_append "junk; fill: x".toList " stroke: red".toList).1.1 _ herror

end IconCode.Style

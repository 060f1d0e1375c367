import IconCode.Paint.Block
import IconCode.Proofs.Outcome.Comparison

/-!
# Clauses that say nothing

A declaration block is a run over its clauses. A clause that is blank, has no colon or has a name
that is no property's leaves the style alone, so a block without it declares the same.

* `Text.pieces_intercalate`: the pieces of a text that is put together from them.
* `Style.ofBlock_intercalate`: the block of clauses.
* `Style.ofBlock_without`: a block without a clause that says nothing.
-/

namespace IconCode

/-! ## Pieces -/

namespace Text

variable {separator : Char}

theorem pieces_of_not_mem {s : List Char} (h : separator ∉ s) : pieces separator s = [s] := by
  induction s with
  | nil => rfl
  | cons c s ih =>
    rw [List.mem_cons, not_or] at h
    rw [pieces, if_neg (Ne.symm h.1), ih h.2]

theorem not_mem_of_mem_pieces {s piece : List Char} (h : piece ∈ pieces separator s) :
    separator ∉ piece := by
  induction s generalizing piece with
  | nil =>
    rw [pieces, List.mem_singleton] at h
    simp [h]
  | cons c s ih =>
    rw [pieces] at h
    split at h
    · rcases List.mem_cons.1 h with rfl | h
      · simp
      · exact ih h
    · rename_i hc
      split at h
      · rename_i hnil
        exact absurd hnil (pieces_ne_nil _ _)
      · rename_i first rest hpieces
        rw [hpieces] at ih
        rcases List.mem_cons.1 h with rfl | h
        · have hfirst : separator ∉ first := ih (by simp)
          simpa [Ne.symm hc] using hfirst
        · exact ih (List.mem_cons_of_mem _ h)

/-- A text that is put together from pieces is cut into them again. -/
theorem pieces_intercalate {texts : List (List Char)} (h : ∀ t ∈ texts, separator ∉ t)
    (hne : texts ≠ []) : pieces separator ([separator].intercalate texts) = texts := by
  induction texts with
  | nil => exact absurd rfl hne
  | cons t texts ih =>
    rw [List.forall_mem_cons] at h
    cases texts with
    | nil => simpa [List.intercalate] using pieces_of_not_mem h.1
    | cons u texts =>
      have hrest := ih h.2 (by simp)
      have hcons : [separator].intercalate (t :: u :: texts) =
          t ++ separator :: [separator].intercalate (u :: texts) := by
        simp [List.intercalate, List.intersperse]
      rw [hcons, pieces_append, pieces_of_not_mem h.1, hrest]
      rfl

theorem forall_ne_of_not_mem {s : List Char} (h : separator ∉ s) :
    ∀ c ∈ s, decide (c ≠ separator) = true := by
  intro c hc
  rw [decide_eq_true_eq]
  rintro rfl
  exact h hc

theorem cut?_of_not_mem {s : List Char} (h : separator ∉ s) : cut? separator s = none := by
  have hdrop : s.dropWhile (· ≠ separator) = [] := by
    rw [← List.append_nil s, List.dropWhile_append_of_pos (forall_ne_of_not_mem h)]
    rfl
  rw [cut?, hdrop]

theorem cut?_append {s : List Char} (h : separator ∉ s) (t : List Char) :
    cut? separator (s ++ separator :: t) = some (s, t) := by
  have hdrop : (s ++ separator :: t).dropWhile (· ≠ separator) = separator :: t := by
    rw [List.dropWhile_append_of_pos (forall_ne_of_not_mem h)]
    simp
  have htake : (s ++ separator :: t).takeWhile (· ≠ separator) = s := by
    rw [List.takeWhile_append_of_pos (forall_ne_of_not_mem h)]
    simp
  rw [cut?, hdrop, htake]

end Text

/-! ## Clauses -/

namespace Style

open Text (trim lowered pieces)

/-- Whether a clause declares nothing: it is blank, has no colon, or what stands before its first
colon is no property's name. -/
def SaysNothing (clause : List Char) : Prop :=
  trim clause = [] ∨ ':' ∉ clause ∨
    ∃ name value, clause = name ++ ':' :: value ∧ ':' ∉ name ∧
      Property.ofName? (String.ofList (lowered (trim name))) = none

/-- What is reported of a clause that says nothing. -/
def clauseReports (clause : List Char) : List Diagnostic :=
  if trim clause = [] then [] else [.unknownStyleRule (String.ofList (trim clause))]

theorem ofText_of_saysNothing {clause : List Char} (h : SaysNothing clause)
    (hblank : trim clause ≠ []) :
    Clause.ofText clause = .unknown (String.ofList (trim clause)) := by
  have hne : (trim clause).isEmpty = false := by simpa using hblank
  rcases h with h | h | ⟨name, value, rfl, hname, hproperty⟩
  · exact absurd h hblank
  · simp [Clause.ofText, hne, Text.cut?_of_not_mem h]
  · simp [Clause.ofText, hne, Text.cut?_append hname, hproperty]

/-- The style with what a written clause adds to it. -/
def addText (style : Style) (clause : List Char) : Outcome Style :=
  style.addClause (.ofText clause)

theorem addText_of_saysNothing {clause : List Char} (h : SaysNothing clause) (style : Style) :
    style.addText clause = ⟨clauseReports clause, .ok style⟩ := by
  unfold addText clauseReports
  by_cases hblank : trim clause = []
  · rw [if_pos hblank, Clause.ofText, hblank]
    rfl
  · rw [if_neg hblank, ofText_of_saysNothing h hblank]
    rfl

/-! ## Blocks -/

theorem ofBlock_eq (s : List Char) : ofBlock s = (pieces ';' s).foldlM addText empty := by
  rw [ofBlock, List.foldlM_map]
  rfl

theorem ofBlock_intercalate {clauses : List (List Char)} (h : ∀ c ∈ clauses, ';' ∉ c) :
    ofBlock ([';'].intercalate clauses) = clauses.foldlM addText empty := by
  rw [ofBlock_eq]
  cases clauses with
  | nil => rfl
  | cons c clauses => rw [Text.pieces_intercalate h (by simp)]

theorem ofBlock_without {s clause : List Char} {front back : List (List Char)}
    (hs : pieces ';' s = front ++ clause :: back) (h : SaysNothing clause) :
    Outcome.Without (clauseReports clause) (ofBlock s)
      (ofBlock ([';'].intercalate (front ++ back))) := by
  have hclean : ∀ c ∈ front ++ back, ';' ∉ c := by
    intro c hc
    have hpiece : c ∈ pieces ';' s := by
      rw [hs]
      rcases List.mem_append.1 hc with hc | hc
      · exact List.mem_append_left _ hc
      · exact List.mem_append_right _ (List.mem_cons_of_mem _ hc)
    exact Text.not_mem_of_mem_pieces hpiece
  rw [ofBlock_intercalate hclean, ofBlock_eq, hs]
  refine Outcome.Without.foldlM front [clause] [] back empty ?_
  intro style _
  rw [List.foldlM_cons, addText_of_saysNothing h]
  exact .reported [] [] rfl rfl rfl

end Style

end IconCode

import IconCode.Naming.Identifier

/-!
# Titles with words

No word of a title is empty, and there are words as soon as there is an ASCII letter or digit. So
every title with one of these gives a name.

* `words_eq_nil_iff`: which titles have no words.
* `Identifier.ofTitle?_eq_none_iff_forall`: which titles give no name.
-/

namespace IconCode.Naming

theorem collect_eq_nil_iff (w : List Char) (ws : List (List Char)) :
    collect w ws = [] ↔ w = [] ∧ ws = [] := by
  unfold collect
  cases w <;> simp

theorem ne_nil_of_mem_collect {w v : List Char} {ws : List (List Char)}
    (h : ∀ u ∈ ws, u ≠ []) (hv : v ∈ collect w ws) : v ≠ [] := by
  unfold collect at hv
  cases w with
  | nil => exact h v hv
  | cons c w =>
    rcases List.mem_cons.1 hv with rfl | hv
    · simp
    · exact h v hv

theorem ne_nil_of_mem_wordsFrom (previous : Option Char) (s : List Char) :
    ∀ w ∈ (wordsFrom previous s).2, w ≠ [] := by
  induction s generalizing previous with
  | nil => simp [wordsFrom]
  | cons c s ih =>
    intro w hw
    rw [wordsFrom] at hw
    split at hw
    · dsimp only at hw
      split at hw
      · rcases List.mem_cons.1 hw with rfl | hw
        · simp
        · exact ih _ w hw
      · exact ih _ w hw
    · exact ne_nil_of_mem_collect (ih none) hw

theorem ne_nil_of_mem_words {s w : List Char} (h : w ∈ words s) : w ≠ [] :=
  ne_nil_of_mem_collect (ne_nil_of_mem_wordsFrom none s) h

theorem wordsFrom_eq_nil {previous : Option Char} {s : List Char}
    (h : (wordsFrom previous s).1 = [] ∧ (wordsFrom previous s).2 = []) :
    ∀ c ∈ s, c.isAlphanum = false := by
  induction s generalizing previous with
  | nil => simp
  | cons c s ih =>
    rw [wordsFrom] at h
    by_cases hc : c.isAlphanum = true
    · -- A letter or digit is in the current word or begins a new one.
      rw [if_pos hc] at h
      dsimp only at h
      split at h
      · simp at h
      · simp at h
    · rw [if_neg hc] at h
      have hrest := ih ((collect_eq_nil_iff _ _).1 h.2)
      exact List.forall_mem_cons.2 ⟨by simpa using hc, hrest⟩

theorem words_eq_nil_iff (s : List Char) : words s = [] ↔ ∀ c ∈ s, c.isAlphanum = false := by
  constructor
  · intro h
    exact wordsFrom_eq_nil ((collect_eq_nil_iff _ _).1 h)
  · exact words_of_separators

theorem lowerCamel_eq_nil_iff (s : List Char) : lowerCamel s = [] ↔ words s = [] := by
  rw [lowerCamel]
  cases h : words s with
  | nil => simp
  | cons w ws =>
    have hw : w ≠ [] := ne_nil_of_mem_words (s := s) (by simp [h])
    simp [hw]

theorem Identifier.ofTitle?_eq_none_iff_forall (title : String) :
    ofTitle? title = none ↔ ∀ c ∈ title.toList, c.isAlphanum = false := by
  rw [ofTitle?_eq_none_iff, lowerCamel_eq_nil_iff, words_eq_nil_iff]

end IconCode.Naming

import Mathlib
import IconCode.Proofs.Naming.Words

/-!
# Where the words of a title begin

The words of a title are its letters and digits, in small letters and in their order. Two letters
or digits that follow one another are in different words exactly if something else stands between
them, or if the second is a capital that begins a word. A separator parts a title into two that
have their words on their own, so words that are joined by separators are found again.

* `flatten_words`: nothing is lost and nothing invented.
* `words_append_separator`: words on both sides of a separator.
* `words_intercalate`: small words that are joined by a separator.
* `wordAt_words_eq_iff`: which characters share a word.
* `words_partition`: all of this for the words of a title.
-/

namespace IconCode.Naming

/-! ## Steps -/

theorem wordsFrom_cons_of_separator {c : Char} (h : c.isAlphanum = false)
    (previous : Option Char) (s : List Char) : wordsFrom previous (c :: s) = ([], words s) := by
  simp [wordsFrom, h, words]

theorem wordsFrom_cons_of_boundary {p c : Char} {s : List Char} (hc : c.isAlphanum = true)
    (h : isBoundary p c s.head? = true) :
    wordsFrom (some p) (c :: s) =
      ([], (c.toLower :: (wordsFrom (some c) s).1) :: (wordsFrom (some c) s).2) := by
  simp [wordsFrom, hc, h]

theorem wordsFrom_cons_of_joined {previous : Option Char} {c : Char} {s : List Char}
    (hc : c.isAlphanum = true) (h : ∀ p ∈ previous, isBoundary p c s.head? = false) :
    wordsFrom previous (c :: s) =
      (c.toLower :: (wordsFrom (some c) s).1, (wordsFrom (some c) s).2) := by
  have hany : (previous.any fun p => isBoundary p c s.head?) = false := by
    cases previous with
    | none => rfl
    | some p => exact h p rfl
  simp [wordsFrom, hc, hany]

/-- A word begins within a run of letters and digits, or it does not. -/
theorem boundary_or_joined (previous : Option Char) (c : Char) (next : Option Char) :
    (∃ p, previous = some p ∧ isBoundary p c next = true) ∨
      ∀ p ∈ previous, isBoundary p c next = false := by
  cases previous with
  | none => exact .inr (by simp)
  | some p => cases h : isBoundary p c next <;> simp [h]

theorem words_cons_of_separator {c : Char} (h : c.isAlphanum = false) (s : List Char) :
    words (c :: s) = words s := by
  rw [words, wordsFrom_cons_of_separator h]
  rfl

/-! ## The characters of words -/

theorem flatten_collect (w : List Char) (ws : List (List Char)) :
    (collect w ws).flatten = w ++ ws.flatten := by
  cases w <;> rfl

theorem flatten_wordsFrom (previous : Option Char) (s : List Char) :
    (wordsFrom previous s).1 ++ (wordsFrom previous s).2.flatten =
      (s.filter Char.isAlphanum).map Char.toLower := by
  induction s generalizing previous with
  | nil => rfl
  | cons c s ih =>
    cases hc : c.isAlphanum with
    | false =>
      rw [wordsFrom_cons_of_separator hc, words, List.nil_append, flatten_collect, ih,
        List.filter_cons_of_neg (by simp [hc])]
    | true =>
      rw [List.filter_cons_of_pos hc, List.map_cons, ← ih (some c)]
      rcases boundary_or_joined previous c s.head? with ⟨p, rfl, hb⟩ | hj
      · rw [wordsFrom_cons_of_boundary hc hb]
        rfl
      · rw [wordsFrom_cons_of_joined hc hj]
        rfl

/-- The words are the letters and digits of the title in small letters. -/
theorem flatten_words (s : List Char) :
    (words s).flatten = (s.filter Char.isAlphanum).map Char.toLower := by
  rw [words, flatten_collect, flatten_wordsFrom]

/-- A character of words: a small letter or a digit. -/
def IsSmall (c : Char) : Prop := c.isLower = true ∨ c.isDigit = true

instance : DecidablePred IsSmall := fun c =>
  inferInstanceAs (Decidable (c.isLower = true ∨ c.isDigit = true))

namespace IsSmall

variable {c : Char} (h : IsSmall c)

include h

theorem isAlphanum : c.isAlphanum = true := by
  rcases h with h | h <;> simp [Char.isAlphanum, Char.isAlpha, h]

theorem isUpper : c.isUpper = false := by
  rcases h with h | h
  · exact Bool.eq_false_iff.2 (Char.not_isUpper_of_isLower h)
  · simp only [Char.isDigit, Char.isUpper, Bool.decide_and, Bool.and_eq_true, decide_eq_true_eq,
      Bool.and_eq_false_iff, decide_eq_false_iff_not, ge_iff_le, UInt32.le_iff_toNat_le] at h ⊢
    have hnine : '9'.val.toNat < 'A'.val.toNat := by decide
    omega

theorem toLower : c.toLower = c :=
  Char.toLower_eq_of_not_isUpper (by simp [h.isUpper])

end IsSmall

theorem isSmall_toLower {c : Char} (h : c.isAlphanum = true) : IsSmall c.toLower := by
  rw [Char.isAlphanum, Bool.or_eq_true] at h
  rcases h with h | h
  · exact .inl (by rw [Char.isLower_toLower_eq_isAlpha, h])
  · exact .inr (by rwa [IsSmall.toLower (.inr h)])

theorem isSmall_of_mem_words {s w : List Char} (hw : w ∈ words s) {c : Char} (hc : c ∈ w) :
    IsSmall c := by
  have hmem : c ∈ (words s).flatten := List.mem_flatten.2 ⟨w, hw, hc⟩
  rw [flatten_words] at hmem
  obtain ⟨d, hd, rfl⟩ := List.mem_map.1 hmem
  exact isSmall_toLower (List.mem_filter.1 hd).2

/-! ## Separators -/

theorem isBoundary_iff (p c : Char) (next : Option Char) :
    isBoundary p c next = true ↔
      c.isUpper = true ∧
        ((p.isLower = true ∨ p.isDigit = true) ∨
          p.isUpper = true ∧ ∃ e, next = some e ∧ e.isLower = true) := by
  have hnext : next.any Char.isLower = true ↔ ∃ e, next = some e ∧ e.isLower = true := by
    cases next <;> simp
  simp only [isBoundary, Bool.or_eq_true, Bool.and_eq_true, hnext]
  tauto

theorem isBoundary_of_isSmall {c : Char} (h : IsSmall c) (p : Char) (next : Option Char) :
    isBoundary p c next = false := by
  simp [isBoundary, h.isUpper]

/-- A separator after a text is as good as its end. -/
theorem isBoundary_append_separator {x : Char} (hx : x.isAlphanum = false) (p c : Char)
    (a b : List Char) : isBoundary p c (a ++ x :: b).head? = isBoundary p c a.head? := by
  cases a with
  | nil =>
    have hlower : x.isLower = false := by
      simp only [Char.isAlphanum, Char.isAlpha, Bool.or_eq_false_iff] at hx
      exact hx.1.2
    simp [isBoundary, hlower]
  | cons y a => rfl

theorem collect_append (w : List Char) (ws vs : List (List Char)) :
    collect w (ws ++ vs) = collect w ws ++ vs := by
  cases w <;> rfl

theorem wordsFrom_append_separator {x : Char} (hx : x.isAlphanum = false)
    (previous : Option Char) (a b : List Char) :
    wordsFrom previous (a ++ x :: b) =
      ((wordsFrom previous a).1, (wordsFrom previous a).2 ++ words b) := by
  induction a generalizing previous with
  | nil => exact wordsFrom_cons_of_separator hx previous b
  | cons c a ih =>
    rw [List.cons_append]
    cases hc : c.isAlphanum with
    | false =>
      have hwords : words (a ++ x :: b) = words a ++ words b := by
        simp only [words, ih, collect_append]
      rw [wordsFrom_cons_of_separator hc, wordsFrom_cons_of_separator hc, hwords]
    | true =>
      rcases boundary_or_joined previous c a.head? with ⟨p, rfl, hb⟩ | hj
      · rw [wordsFrom_cons_of_boundary hc hb, wordsFrom_cons_of_boundary hc, ih]
        · rfl
        · rwa [isBoundary_append_separator hx]
      · rw [wordsFrom_cons_of_joined hc hj, wordsFrom_cons_of_joined hc, ih]
        intro p hp
        rw [isBoundary_append_separator hx]
        exact hj p hp

/-- **A separator parts the words.** -/
theorem words_append_separator {x : Char} (hx : x.isAlphanum = false) (a b : List Char) :
    words (a ++ x :: b) = words a ++ words b := by
  simp only [words, wordsFrom_append_separator hx, collect_append]

theorem words_append_of_separators {m : List Char} (h : ∀ x ∈ m, x.isAlphanum = false)
    (b : List Char) : words (m ++ b) = words b := by
  induction m with
  | nil => rfl
  | cons x m ih =>
    rw [List.forall_mem_cons] at h
    rw [List.cons_append, words_cons_of_separator h.1, ih h.2]

/-! ## Joined words -/

theorem wordsFrom_of_isSmall {w : List Char} (h : ∀ c ∈ w, IsSmall c) (previous : Option Char) :
    wordsFrom previous w = (w, []) := by
  induction w generalizing previous with
  | nil => rfl
  | cons c w ih =>
    rw [List.forall_mem_cons] at h
    rw [wordsFrom_cons_of_joined h.1.isAlphanum fun p _ => isBoundary_of_isSmall h.1 p _, ih h.2,
      h.1.toLower]

theorem words_of_isSmall {w : List Char} (hne : w ≠ []) (h : ∀ c ∈ w, IsSmall c) :
    words w = [w] := by
  rw [words, wordsFrom_of_isSmall h, collect, if_neg (by simpa using hne)]

/-- Small words that are joined by a separator are found again. -/
theorem words_intercalate {separator : List Char} (hne : separator ≠ [])
    (hs : ∀ x ∈ separator, x.isAlphanum = false) {ws : List (List Char)}
    (hws : ∀ w ∈ ws, w ≠ [] ∧ ∀ c ∈ w, IsSmall c) :
    words (separator.intercalate ws) = ws := by
  induction ws with
  | nil => rfl
  | cons w ws ih =>
    rw [List.forall_mem_cons] at hws
    have hw : words w = [w] := words_of_isSmall hws.1.1 hws.1.2
    cases ws with
    | nil => simpa using hw
    | cons v ws =>
      obtain ⟨x, separator', rfl⟩ := List.exists_cons_of_ne_nil hne
      rw [List.forall_mem_cons] at hs
      rw [List.intercalate_cons_cons, List.append_assoc, List.cons_append,
        words_append_separator hs.1, words_append_of_separators hs.2, hw, ih hws.2]
      rfl

/-! ## Which characters share a word -/

/-- The number of the word that a character belongs to, where the characters of all words are
counted through. -/
def wordAt : List (List Char) → Nat → Nat
  | [], _ => 0
  | w :: ws, k => if k < w.length then 0 else wordAt ws (k - w.length) + 1

theorem wordAt_nil_cons (ws : List (List Char)) (k : Nat) :
    wordAt ([] :: ws) k = wordAt ws k + 1 := by
  simp [wordAt]

theorem wordAt_cons_zero (c : Char) (w : List Char) (ws : List (List Char)) :
    wordAt ((c :: w) :: ws) 0 = 0 := by
  simp [wordAt]

theorem wordAt_cons_succ (c : Char) (w : List Char) (ws : List (List Char)) (k : Nat) :
    wordAt ((c :: w) :: ws) (k + 1) = wordAt (w :: ws) k := by
  simp [wordAt]

theorem wordAt_cons_zero_iff (w : List Char) (ws : List (List Char)) :
    wordAt (w :: ws) 0 = 0 ↔ w ≠ [] := by
  cases w <;> simp [wordAt]

theorem wordAt_collect_eq_iff (w : List Char) (ws : List (List Char)) (i j : Nat) :
    wordAt (collect w ws) i = wordAt (collect w ws) j ↔
      wordAt (w :: ws) i = wordAt (w :: ws) j := by
  cases w with
  | nil => simp [collect, wordAt_nil_cons]
  | cons c w => rfl

/-- Whether or not a letter or digit begins a word, it shares it with the same characters. -/
theorem wordAt_wordsFrom_cons_eq_iff {c : Char} (hc : c.isAlphanum = true)
    (previous : Option Char) (s : List Char) (i j : Nat) :
    let r := wordsFrom previous (c :: s)
    let rest := wordsFrom (some c) s
    wordAt (r.1 :: r.2) i = wordAt (r.1 :: r.2) j ↔
      wordAt ((c.toLower :: rest.1) :: rest.2) i = wordAt ((c.toLower :: rest.1) :: rest.2) j := by
  intro r rest
  rcases boundary_or_joined previous c s.head? with ⟨p, rfl, hb⟩ | hj
  · simp only [r, wordsFrom_cons_of_boundary hc hb, wordAt_nil_cons, Nat.add_right_cancel_iff]
    rfl
  · simp only [r, wordsFrom_cons_of_joined hc hj]
    rfl

/-- Whether a word ends between two letters or digits `c` and `d` with only separators `m` between
them and `b` behind them. -/
def Separated (c : Char) (m : List Char) (d : Char) (b : List Char) : Prop :=
  m ≠ [] ∨ d.isUpper = true ∧ (c.isLower = true ∨ c.isDigit = true) ∨
    c.isUpper = true ∧ d.isUpper = true ∧ ∃ e, b.head? = some e ∧ e.isLower = true

theorem separated_nil_iff (c d : Char) (b : List Char) :
    Separated c [] d b ↔ isBoundary c d b.head? = true := by
  rw [isBoundary_iff, Separated]
  tauto

section Neighbours

variable {c d : Char} {m b : List Char} (hc : c.isAlphanum = true) (hd : d.isAlphanum = true)
  (hm : ∀ x ∈ m, x.isAlphanum = false)

include hd hm in
/-- A word goes on after a letter or digit as long as nothing separates it from the next one. -/
theorem wordsFrom_eq_nil_iff_separated :
    (wordsFrom (some c) (m ++ d :: b)).1 = [] ↔ Separated c m d b := by
  cases m with
  | cons x m =>
    rw [List.forall_mem_cons] at hm
    simp [wordsFrom_cons_of_separator hm.1, Separated]
  | nil =>
    rw [separated_nil_iff, List.nil_append]
    rcases boundary_or_joined (some c) d b.head? with ⟨p, hp, hb⟩ | hj
    · obtain rfl := Option.some.inj hp
      simp [wordsFrom_cons_of_boundary hd hb, hb]
    · simp [wordsFrom_cons_of_joined hd hj, hj c rfl]

include hc hd hm

theorem wordAt_wordsFrom_eq_iff (previous : Option Char) (a : List Char) :
    let r := wordsFrom previous (a ++ c :: (m ++ d :: b))
    let k := (a.filter Char.isAlphanum).length
    wordAt (r.1 :: r.2) k = wordAt (r.1 :: r.2) (k + 1) ↔ ¬ Separated c m d b := by
  intro r k
  induction a generalizing previous with
  | nil =>
    refine (wordAt_wordsFrom_cons_eq_iff hc previous (m ++ d :: b) 0 1).trans ?_
    rw [wordAt_cons_zero, wordAt_cons_succ, eq_comm, wordAt_cons_zero_iff,
      ← wordsFrom_eq_nil_iff_separated hd hm]
  | cons x a ih =>
    simp only [r, k, List.cons_append]
    cases hx : x.isAlphanum with
    | false =>
      rw [wordsFrom_cons_of_separator hx, List.filter_cons_of_neg (by simp [hx]),
        wordAt_nil_cons, wordAt_nil_cons, Nat.add_right_cancel_iff, words, wordAt_collect_eq_iff]
      exact ih none
    | true =>
      rw [List.filter_cons_of_pos hx, List.length_cons]
      refine (wordAt_wordsFrom_cons_eq_iff hx previous _ _ _).trans ?_
      rw [wordAt_cons_succ, wordAt_cons_succ]
      exact ih (some x)

/-- Two letters or digits with only separators between them share a word unless they are
separated. -/
theorem wordAt_words_eq_iff (a : List Char) :
    let ws := words (a ++ c :: (m ++ d :: b))
    let k := (a.filter Char.isAlphanum).length
    wordAt ws k = wordAt ws (k + 1) ↔ ¬ Separated c m d b := by
  intro ws k
  simp only [ws, words]
  rw [wordAt_collect_eq_iff]
  exact wordAt_wordsFrom_eq_iff hc hd hm none a

end Neighbours

/-- The words of a title hold its letters and digits in small letters and in their order. No word is
empty, and none holds anything else. Neighbours among the letters and digits are in different words
exactly if they are separated. Joined by a separator and divided again, the words are the same. -/
theorem words_partition (s : List Char) :
    (words s).flatten = (s.filter Char.isAlphanum).map Char.toLower ∧
      (∀ w ∈ words s, w ≠ [] ∧ ∀ c ∈ w, IsSmall c) ∧
      (∀ a c m d b, s = a ++ c :: (m ++ d :: b) → c.isAlphanum = true → d.isAlphanum = true →
        (∀ x ∈ m, x.isAlphanum = false) →
        (wordAt (words s) (a.filter Char.isAlphanum).length ≠
            wordAt (words s) ((a.filter Char.isAlphanum).length + 1) ↔
          Separated c m d b)) ∧
      ∀ separator : List Char, separator ≠ [] → (∀ x ∈ separator, x.isAlphanum = false) →
        words (separator.intercalate (words s)) = words s := by
  have hwords : ∀ w ∈ words s, w ≠ [] ∧ ∀ c ∈ w, IsSmall c := fun w hw =>
    ⟨ne_nil_of_mem_words hw, fun c hc => isSmall_of_mem_words hw hc⟩
  refine ⟨flatten_words s, hwords, ?_, ?_⟩
  · rintro a c m d b rfl hc hd hm
    have hshare := wordAt_words_eq_iff (b := b) hc hd hm a
    exact (not_congr hshare).trans not_not
  · intro separator hne hs
    exact words_intercalate hne hs hwords

theorem words_partition_server :
    let title := "HTTPServer-2x".toList
    words title = ["http".toList, "server".toList, "2x".toList] ∧
      wordAt (words title) 3 ≠ wordAt (words title) 4 ∧
      Separated 'P' [] 'S' "erver-2x".toList ∧
      words ("--".toList.intercalate (words title)) = words title := by
  intro title
  obtain ⟨-, -, hneighbours, hjoined⟩ := words_partition title
  have hseparated : Separated 'P' [] 'S' "erver-2x".toList :=
    .inr (.inr ⟨rfl, rfl, 'e', rfl, rfl⟩)
  have hcut := hneighbours "HTT".toList 'P' [] 'S' "erver-2x".toList rfl rfl rfl (by simp)
  have hdashes : ∀ x ∈ "--".toList, x.isAlphanum = false := by simp
  exact ⟨by decide, hcut.2 hseparated, hseparated, hjoined "--".toList (by decide) hdashes⟩

end IconCode.Naming

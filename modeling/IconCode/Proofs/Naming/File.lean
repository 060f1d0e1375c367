import Mathlib
import IconCode.Generate
import IconCode.Proofs.Naming.Identifier

/-!
# Which names have a file of their own

The file of a name is called by the words of the name, not by those of the title. Where a title has
several words of one letter, the name has several capitals in a row, and these are read as one word.
So a name shares its file with the name that it gives itself when it is read as a title, and two
names have the same file exactly if they give the same name. A name gives itself if its capitals are
spaced; such names have different files.

* `joined_wordsFrom_eq_iff`: when a name is made of its own words again.
* `isSpaced_joined_wordsFrom`: a name made of words is.
* `Identifier.file_eq_iff`: which names have the same file.
* `Document.outputFile_eq_iff`: all of this for the files of documents.
* `Document.not_names_of_outputFile_eq`: different names may have the same file.
-/

namespace IconCode.Naming

/-! ## Names made of words -/

/-- The rest of a word and the words after it, with a capital for each of these. -/
def joined (r : List Char × List (List Char)) : List Char :=
  r.1 ++ (r.2.map capitalized).flatten

theorem lowerCamel_cons {c : Char} (hc : c.isAlphanum = true) (s : List Char) :
    lowerCamel (c :: s) = c.toLower :: joined (wordsFrom (some c) s) := by
  have hwords : words (c :: s) =
      (c.toLower :: (wordsFrom (some c) s).1) :: (wordsFrom (some c) s).2 := by
    rw [words, wordsFrom_cons_of_joined hc (by simp)]
    rfl
  rw [lowerCamel, hwords]
  rfl

theorem joined_wordsFrom_of_boundary {p c : Char} {s : List Char} (hc : c.isAlphanum = true)
    (h : isBoundary p c s.head? = true) :
    joined (wordsFrom (some p) (c :: s)) = c :: joined (wordsFrom (some c) s) := by
  have hupper : c.toLower.toUpper = c := by
    have hcapital := ((isBoundary_iff p c s.head?).1 h).1
    rw [Char.toUpper_toLower_eq_toUpper,
      Char.toUpper_eq_of_not_isLower (Char.not_isLower_of_isUpper hcapital)]
  rw [wordsFrom_cons_of_boundary hc h]
  simp [joined, capitalized, hupper]

theorem joined_wordsFrom_of_joined {p c : Char} {s : List Char} (hc : c.isAlphanum = true)
    (h : isBoundary p c s.head? = false) :
    joined (wordsFrom (some p) (c :: s)) = c.toLower :: joined (wordsFrom (some c) s) := by
  rw [wordsFrom_cons_of_joined hc (by simpa using h)]
  rfl

/-! ## Spaced capitals -/

/-- Whether every capital right after a capital comes before a small letter. -/
def isSpaced : List Char → Bool
  | [] => true
  | [_] => true
  | p :: c :: s => (!(p.isUpper && c.isUpper) || s.head?.any Char.isLower) && isSpaced (c :: s)

theorem isSpaced_cons_of_boundary {p c : Char} {s : List Char}
    (h : isBoundary p c s.head? = true) : isSpaced (p :: c :: s) = isSpaced (c :: s) := by
  obtain ⟨-, hp | ⟨-, e, he, hlower⟩⟩ := (isBoundary_iff p c s.head?).1 h
  · have hupper : p.isUpper = false := IsSmall.isUpper hp
    simp [isSpaced, hupper]
  · simp [isSpaced, he, hlower]

/-- A capital that begins no word is not spaced. -/
theorem isSpaced_cons_of_joined {p c : Char} {s : List Char} (hp : p.isAlphanum = true)
    (h : isBoundary p c s.head? = false) :
    isSpaced (p :: c :: s) = (!c.isUpper && isSpaced (c :: s)) := by
  have hclasses : p.isUpper = true ∨ p.isLower = true ∨ p.isDigit = true := by
    simpa [Char.isAlphanum, Char.isAlpha, or_assoc] using hp
  cases hc : c.isUpper with
  | false => simp [isSpaced, hc]
  | true =>
    rcases hclasses with hupper | hsmall | hsmall
    · simp only [isBoundary, hc, hupper, Bool.and_true, Bool.true_and, Bool.or_eq_false_iff] at h
      simp [isSpaced, hc, hupper, h.2]
    · simp [isBoundary, hc, hsmall] at h
    · simp [isBoundary, hc, hsmall] at h

theorem isSpaced_cons_of_not_isUpper {p c : Char} (h : c.isUpper = false) (s : List Char) :
    isSpaced (p :: c :: s) = isSpaced (c :: s) := by
  simp [isSpaced, h]

/-- A text is made of its own words again exactly if its capitals are spaced. -/
theorem joined_wordsFrom_eq_iff {p : Char} (hp : p.isAlphanum = true) {s : List Char}
    (hs : ∀ c ∈ s, c.isAlphanum = true) :
    joined (wordsFrom (some p) s) = s ↔ isSpaced (p :: s) = true := by
  induction s generalizing p with
  | nil => simp [wordsFrom, joined, isSpaced]
  | cons c s ih =>
    rw [List.forall_mem_cons] at hs
    have hrest := ih hs.1 hs.2
    cases hb : isBoundary p c s.head? with
    | true =>
      rw [joined_wordsFrom_of_boundary hs.1 hb, isSpaced_cons_of_boundary hb, ← hrest]
      simp
    | false =>
      have hlower : c.toLower = c ↔ c.isUpper = false := by
        constructor
        · intro h
          rw [← h, Char.isUpper_toLower_eq_false]
        · intro h
          exact Char.toLower_eq_of_not_isUpper (by simp [h])
      rw [joined_wordsFrom_of_joined hs.1 hb, isSpaced_cons_of_joined hp hb, Bool.and_eq_true,
        ← hrest, List.cons.injEq, hlower, Bool.not_eq_true']

/-- A small letter goes on with the word of the character before it. -/
theorem head?_joined_wordsFrom {p e : Char} {s : List Char} (h : s.head? = some e)
    (he : e.isLower = true) : (joined (wordsFrom (some p) s)).head? = some e := by
  obtain ⟨t, rfl⟩ := List.head?_eq_some_iff.1 h
  have hsmall : IsSmall e := .inl he
  rw [joined_wordsFrom_of_joined hsmall.isAlphanum (isBoundary_of_isSmall hsmall p _),
    hsmall.toLower]
  rfl

/-- In a name made of words the capitals are spaced. The character before the text is written with a
capital if it begins a word, or else without one. -/
theorem isSpaced_joined_wordsFrom {p x : Char} (hx : x = p ∨ x = p.toLower) {s : List Char}
    (hs : ∀ c ∈ s, c.isAlphanum = true) :
    isSpaced (x :: joined (wordsFrom (some p) s)) = true := by
  induction s generalizing p x with
  | nil => rfl
  | cons c s ih =>
    rw [List.forall_mem_cons] at hs
    cases hb : isBoundary p c s.head? with
    | false =>
      rw [joined_wordsFrom_of_joined hs.1 hb,
        isSpaced_cons_of_not_isUpper (Char.isUpper_toLower_eq_false c)]
      exact ih (.inr rfl) hs.2
    | true =>
      rw [joined_wordsFrom_of_boundary hs.1 hb, isSpaced, ih (.inl rfl) hs.2, Bool.and_true]
      -- Only a capital that stands before a small letter begins a word after a capital.
      obtain ⟨hc, hp | ⟨hp, e, he, hlower⟩⟩ := (isBoundary_iff p c s.head?).1 hb
      · have hupper : x.isUpper = false := by
          rcases hx with rfl | rfl
          · exact IsSmall.isUpper hp
          · exact Char.isUpper_toLower_eq_false p
        simp [hupper]
      · simp [head?_joined_wordsFrom he hlower, hlower]

theorem lowerCamel_eq_self_iff {name : List Char} (h : IsCamel name) :
    lowerCamel name = name ↔ isSpaced name = true := by
  obtain ⟨c, s, rfl, hc, hs⟩ := h
  rw [lowerCamel_cons hc.isAlphanum, hc.toLower, List.cons.injEq,
    joined_wordsFrom_eq_iff hc.isAlphanum hs]
  simp

theorem isSpaced_lowerCamel {name : List Char} (h : IsCamel name) :
    isSpaced (lowerCamel name) = true := by
  obtain ⟨c, s, rfl, hc, hs⟩ := h
  rw [lowerCamel_cons hc.isAlphanum]
  exact isSpaced_joined_wordsFrom (.inr rfl) hs

/-! ## Upper camel case -/

theorem upperCamel_eq (s : List Char) : upperCamel s = capitalized (lowerCamel s) := by
  rw [upperCamel, lowerCamel]
  cases hwords : words s with
  | nil => rfl
  | cons w ws =>
    have hne : w ≠ [] := ne_nil_of_mem_words (s := s) (by simp [hwords])
    obtain ⟨c, w', rfl⟩ := List.exists_cons_of_ne_nil hne
    rfl

theorem capitalized_inj {v w : List Char} (hv : IsCamel v) (hw : IsCamel w) :
    capitalized v = capitalized w ↔ v = w := by
  obtain ⟨c, s, rfl, hc, -⟩ := hv
  obtain ⟨d, t, rfl, hd, -⟩ := hw
  have hupper : c.toUpper = d.toUpper ↔ c = d := by
    refine ⟨?_, fun h => h ▸ rfl⟩
    intro h
    rw [← hc.toLower, ← hd.toLower, ← Char.toLower_toUpper_eq_toLower c, h,
      Char.toLower_toUpper_eq_toLower]
  rw [capitalized, capitalized, List.cons.injEq, List.cons.injEq, hupper]

theorem isAlphanum_of_mem_upperCamel {s : List Char} {c : Char} (h : c ∈ upperCamel s) :
    c.isAlphanum = true := by
  obtain ⟨v, hv, hc⟩ := List.mem_flatten.1 h
  obtain ⟨w, hw, rfl⟩ := List.mem_map.1 hv
  exact isAlphanum_of_mem_capitalized (fun d hd => isSmall_of_mem_words hw hd) c hc

/-- Words have no underscores, so there are none to be taken away. -/
theorem dropWhile_upperCamel (s : List Char) :
    (upperCamel s).dropWhile (· == '_') = upperCamel s := by
  rw [List.dropWhile_eq_self_iff]
  intro hpos hfirst
  have hmem : '_' ∈ upperCamel s := beq_iff_eq.1 hfirst ▸ List.getElem_mem hpos
  exact absurd (isAlphanum_of_mem_upperCamel hmem) (by decide)

/-! ## Names and their files -/

namespace IsCamel

variable {name : List Char} (h : IsCamel name)

include h

theorem isAlphanum : ∀ c ∈ name, c.isAlphanum = true := by
  obtain ⟨c, s, rfl, hc, hs⟩ := h
  exact List.forall_mem_cons.2 ⟨hc.isAlphanum, hs⟩

/-- A name in lower camel case has words, so it gives a name again. -/
theorem isCamel_lowerCamel : IsCamel (lowerCamel name) := by
  obtain ⟨c, s, rfl, hc, -⟩ := h
  apply Naming.isCamel_lowerCamel
  rw [lowerCamel_cons hc.isAlphanum]
  exact List.cons_ne_nil _ _

end IsCamel

namespace Identifier

theorem words_adjust (name : List Char) : words (adjust name) = words name := by
  have hunderscore : Char.isAlphanum '_' = false := by decide
  have hfront (s : List Char) : words ('_' :: s) = words s :=
    words_cons_of_separator hunderscore s
  have hback (s : List Char) : words (s ++ ['_']) = words s := by
    rw [words_append_separator hunderscore]
    exact List.append_nil _
  unfold adjust
  dsimp only
  split <;> split <;> simp only [hfront, hback]

theorem lowerCamel_adjust (name : List Char) : lowerCamel (adjust name) = lowerCamel name := by
  simp only [lowerCamel, words_adjust]

/-- Only underscores are added to a name. -/
theorem filter_adjust {name : List Char} (h : ∀ c ∈ name, c.isAlphanum = true) :
    (adjust name).filter Char.isAlphanum = name := by
  have hname : name.filter Char.isAlphanum = name := List.filter_eq_self.2 h
  have hunderscore : Char.isAlphanum '_' = false := by decide
  unfold adjust
  dsimp only
  split <;> split <;> simp [hname, hunderscore]

theorem adjust_inj {v w : List Char} (hv : ∀ c ∈ v, c.isAlphanum = true)
    (hw : ∀ c ∈ w, c.isAlphanum = true) : adjust v = adjust w ↔ v = w := by
  refine ⟨?_, fun h => h ▸ rfl⟩
  intro h
  rw [← filter_adjust hv, h, filter_adjust hw]

/-- The underscores of a name are no capitals. -/
theorem isSpaced_adjust {name : List Char} (h : IsCamel name) :
    isSpaced (adjust name) = isSpaced name := by
  obtain ⟨c, s, rfl, hc, -⟩ := h
  cases hdigit : c.isDigit with
  | true => rw [adjust_of_isDigit hdigit, isSpaced_cons_of_not_isUpper hc.isUpper]
  | false =>
    by_cases hreserved : String.ofList (c :: s) ∈ reserved
    · have hwords : ∀ w ∈ reserved, isSpaced (w.toList ++ ['_']) = isSpaced w.toList := by decide
      have hword := hwords _ hreserved
      rwa [String.toList_ofList, ← adjust_of_mem hreserved] at hword
    · rw [adjust_of_not_mem (by simp [hdigit]) hreserved]

/-- The name that a name gives when it is read as a title. -/
theorem ofTitle?_adjust {name : List Char} (h : IsCamel name) :
    ofTitle? (String.ofList (adjust name)) = some ⟨String.ofList (adjust (lowerCamel name))⟩ := by
  obtain ⟨c, s, hcons, -⟩ := h.isCamel_lowerCamel
  simp [ofTitle?, lowerCamel_adjust, hcons]

theorem mk_adjust_inj {v w : List Char} (hv : IsCamel v) (hw : IsCamel w) :
    (⟨String.ofList (adjust v)⟩ : Identifier) = ⟨String.ofList (adjust w)⟩ ↔ v = w := by
  rw [Identifier.mk.injEq, String.ofList_inj, adjust_inj hv.isAlphanum hw.isAlphanum]

theorem file_adjust (name : List Char) :
    file ⟨String.ofList (adjust name)⟩ =
      String.ofList (capitalized (lowerCamel name)) ++ "+Generated.rs" := by
  rw [file, dropWhile_upperCamel, String.toList_ofList, upperCamel_eq, lowerCamel_adjust]

section Titles

variable {s t : String} {i j : Identifier} (hi : ofTitle? s = some i)

include hi

/-- Names have the same file exactly if they give the same name when they are read as titles. -/
theorem file_eq_iff (hj : ofTitle? t = some j) :
    i.file = j.file ↔ ofTitle? i.base = ofTitle? j.base := by
  obtain ⟨v, hv, -, rfl⟩ := exists_of_ofTitle? hi
  obtain ⟨w, hw, -, rfl⟩ := exists_of_ofTitle? hj
  have hv' := hv.isCamel_lowerCamel
  have hw' := hw.isCamel_lowerCamel
  rw [file_adjust, file_adjust, String.append_left_inj, String.ofList_inj, capitalized_inj hv' hw',
    ofTitle?_adjust hv, ofTitle?_adjust hw, Option.some.injEq, mk_adjust_inj hv' hw']

/-- A name gives itself exactly if its capitals are spaced. -/
theorem ofTitle?_base_iff : ofTitle? i.base = some i ↔ isSpaced i.base.toList = true := by
  obtain ⟨v, hv, -, rfl⟩ := exists_of_ofTitle? hi
  rw [ofTitle?_adjust hv, Option.some.injEq, mk_adjust_inj hv.isCamel_lowerCamel hv,
    lowerCamel_eq_self_iff hv, String.toList_ofList, isSpaced_adjust hv]

/-- What a name gives has spaced capitals and the same file. -/
theorem exists_ofTitle?_base :
    ∃ k, ofTitle? i.base = some k ∧ isSpaced k.base.toList = true ∧ k.file = i.file := by
  have hspaced : ∃ k, ofTitle? i.base = some k ∧ isSpaced k.base.toList = true := by
    obtain ⟨v, hv, -, rfl⟩ := exists_of_ofTitle? hi
    refine ⟨_, ofTitle?_adjust hv, ?_⟩
    rw [String.toList_ofList, isSpaced_adjust hv.isCamel_lowerCamel, isSpaced_lowerCamel hv]
  obtain ⟨k, hk, hspaced⟩ := hspaced
  refine ⟨k, hk, hspaced, ?_⟩
  rw [file_eq_iff hk hi, (ofTitle?_base_iff hk).2 hspaced, hk]

end Titles

end Identifier

end IconCode.Naming

/-! ## The files of documents -/

namespace IconCode.Document

open Naming Naming.Identifier

theorem outputFile_eq_ok {d : Document} {i : Identifier} (h : ofTitle? d.title = some i) :
    d.outputFile = .ok i.file := by
  rw [outputFile, h]

/-- Two documents have the same file exactly if their names, read as titles, give the same name. So
names with spaced capitals have the same file only if they are the same, and with them accessor and
cache. A name whose capitals are not spaced shares its file with another one, which it gives when
it is read as a title. -/
theorem outputFile_eq_iff {d e : Document} {i j : Identifier} (hi : ofTitle? d.title = some i)
    (hj : ofTitle? e.title = some j) :
    (d.outputFile = e.outputFile ↔ ofTitle? i.base = ofTitle? j.base) ∧
      (d.outputFile = e.outputFile → isSpaced i.base.toList = true →
        isSpaced j.base.toList = true → i.accessor = j.accessor ∧ i.cache = j.cache) ∧
      (isSpaced i.base.toList = false →
        ∃ k, ofTitle? i.base = some k ∧ isSpaced k.base.toList = true ∧
          d.outputFile = .ok k.file ∧ k.accessor ≠ i.accessor ∧ k.cache ≠ i.cache) := by
  rw [outputFile_eq_ok hi, outputFile_eq_ok hj, Except.ok.injEq, file_eq_iff hi hj]
  refine ⟨Iff.rfl, ?_, ?_⟩
  · intro hgiven hspaced hspaced'
    rw [(ofTitle?_base_iff hi).2 hspaced, (ofTitle?_base_iff hj).2 hspaced',
      Option.some.injEq] at hgiven
    exact ⟨hgiven ▸ rfl, hgiven ▸ rfl⟩
  · intro hspaced
    obtain ⟨k, hk, hspaced', hfile⟩ := exists_ofTitle?_base hi
    have hne : k ≠ i := by
      rintro rfl
      simp [hspaced] at hspaced'
    have hwell := wellFormed_of_ofTitle? hk
    refine ⟨k, hk, hspaced', by rw [hfile], ?_, ?_⟩
    · rwa [Ne, hwell.accessor_inj (wellFormed_of_ofTitle? hi)]
    · rwa [Ne, cache_inj]

/-- A document of nothing but a title. -/
def ofTitle (title : String) : Document := { title }

theorem outputFile_eq_iff_initials :
    let initials : Identifier := ⟨"aBC"⟩
    let words : Identifier := ⟨"aBc"⟩
    ofTitle? "A B C" = some initials ∧ ofTitle? "a bc" = some words ∧
      isSpaced initials.base.toList = false ∧ isSpaced words.base.toList = true ∧
      (ofTitle "A B C").outputFile = (ofTitle "a bc").outputFile ∧
      ∃ k, ofTitle? initials.base = some k ∧ isSpaced k.base.toList = true ∧
        (ofTitle "A B C").outputFile = .ok k.file ∧
        k.accessor ≠ initials.accessor ∧ k.cache ≠ initials.cache := by
  intro initials words
  have hinitials : ofTitle? "A B C" = some initials := by decide
  have hwords : ofTitle? "a bc" = some words := by decide
  have hspaced : isSpaced initials.base.toList = false := by decide
  have hgiven : ofTitle? initials.base = ofTitle? words.base := by decide
  obtain ⟨hfile, -, hother⟩ :=
    outputFile_eq_iff (d := ofTitle "A B C") (e := ofTitle "a bc") hinitials hwords
  exact ⟨hinitials, hwords, hspaced, by decide, hfile.2 hgiven, hother hspaced⟩

/-- Different names may have the same file. -/
theorem not_names_of_outputFile_eq :
    ¬ ∀ (d e : Document) (i j : Identifier), ofTitle? d.title = some i → ofTitle? e.title = some j →
      d.outputFile = e.outputFile → i.accessor = j.accessor ∧ i.cache = j.cache := by
  intro h
  have hinitials : ofTitle? (ofTitle "A B C").title = some ⟨"aBC"⟩ := by decide
  have hwords : ofTitle? (ofTitle "a bc").title = some ⟨"aBc"⟩ := by decide
  have hfile : file ⟨"aBC"⟩ = file ⟨"aBc"⟩ := by decide
  have hnames := h _ _ _ _ hinitials hwords
    (by rw [outputFile_eq_ok hinitials, outputFile_eq_ok hwords, hfile])
  exact absurd hnames.1 (by decide)

end IconCode.Document

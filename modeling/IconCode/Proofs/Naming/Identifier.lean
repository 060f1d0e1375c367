import Mathlib
import IconCode.Proofs.Naming.Boundaries

/-!
# Titles give identifiers

A title with a letter or digit gives a name in lower camel case. Before a digit it gets an
underscore, and one of the words that no mark makes a name gets one at its end. As an accessor the
name stands as it is, or as a raw name if it is a keyword. The name of the cache is never a keyword.

* `isCamel_lowerCamel`: words are joined to a name in lower camel case.
* `Identifier.wellFormed_of_ofTitle?`: what can be said of every name that a title gives.
* `Identifier.WellFormed.accessor?_eq`: such a name is taken as the name of an accessor.
* `Identifier.ofTitle?_wellFormed`: which titles give a name, and what is made of it.
-/

namespace IconCode.Naming

/-! ## Names of the target language

There are also names with letters beyond ASCII, but no title gives one of these. -/

def isNameChar (c : Char) : Bool := c.isAlphanum || c == '_'

/-- Whether a text has the form of a name: a letter or an underscore, and after it such and digits,
but not an underscore alone. -/
def isName : List Char → Bool
  | [] => false
  | c :: s => (c.isAlpha || c == '_') && s.all isNameChar && (c != '_' || !s.isEmpty)

/-- The texts that are no raw names either. -/
def unmarkable : List String := ["_", "super", "self", "Self", "crate"]

/-- A text as a plain name. No keyword is one. -/
def plain? (s : String) : Option String :=
  if isName s.toList && !keywords.contains s then some s else none

/-- A text as a raw name, which may be a keyword. -/
def raw? (s : String) : Option String :=
  if isName s.toList && !unmarkable.contains s then some ("r#" ++ s) else none

theorem plain?_of_isName {s : String} (h : isName s.toList = true) (hk : s ∉ keywords) :
    plain? s = some s := by
  simp [plain?, h, hk]

theorem plain?_of_mem {s : String} (hk : s ∈ keywords) : plain? s = none := by
  simp [plain?, hk]

theorem raw?_of_isName {s : String} (h : isName s.toList = true) (hu : s ∉ unmarkable) :
    raw? s = some ("r#" ++ s) := by
  simp [raw?, h, hu]

theorem isName_cons_iff (c : Char) (s : List Char) :
    isName (c :: s) = true ↔
      (c.isAlpha = true ∨ c = '_') ∧ (∀ d ∈ s, isNameChar d = true) ∧ (c = '_' → s ≠ []) := by
  simp only [isName, Bool.and_eq_true, Bool.or_eq_true, beq_iff_eq, List.all_eq_true, bne_iff_ne,
    Bool.not_eq_true', List.isEmpty_eq_false_iff, and_assoc, ne_eq, ← imp_iff_not_or]

theorem isNameChar_of_mem {s : List Char} (h : isName s = true) : ∀ c ∈ s, isNameChar c = true := by
  cases s with
  | nil => simp
  | cons c s =>
    obtain ⟨hc, hs, -⟩ := (isName_cons_iff c s).1 h
    refine List.forall_mem_cons.2 ⟨?_, hs⟩
    rcases hc with hc | rfl
    · simp [isNameChar, Char.isAlphanum, hc]
    · rfl

/-- The mark of raw names is not found in a name. -/
theorem raw_ne {s t : String} (h : isName t.toList = true) : "r#" ++ s ≠ t := by
  rintro rfl
  have hmark : '#' ∈ ("r#" ++ s).toList := by simp
  exact absurd (isNameChar_of_mem h '#' hmark) (by decide)

theorem isName_append {s t : List Char} (hs : isName s = true)
    (ht : ∀ d ∈ t, isNameChar d = true) : isName (s ++ t) = true := by
  cases s with
  | nil => simp [isName] at hs
  | cons c s =>
    obtain ⟨hc, hall, hlong⟩ := (isName_cons_iff c s).1 hs
    refine (isName_cons_iff c (s ++ t)).2 ⟨hc, List.forall_mem_append.2 ⟨hall, ht⟩, ?_⟩
    intro hunderscore
    exact List.append_ne_nil_of_left_ne_nil (hlong hunderscore) t

/-! ## Lower camel case -/

/-- A name in lower camel case: letters and digits, of which the first is no capital. -/
def IsCamel (name : List Char) : Prop :=
  ∃ c s, name = c :: s ∧ IsSmall c ∧ ∀ d ∈ s, d.isAlphanum = true

theorem isAlphanum_toUpper (c : Char) (h : c.isAlphanum = true) : c.toUpper.isAlphanum = true := by
  rw [Char.isAlphanum, Bool.or_eq_true] at h ⊢
  rcases h with h | h
  · exact .inl (by rwa [Char.isAlpha_toUpper_eq_isAlpha])
  · cases hlower : c.isLower with
    | true => exact .inl (by simp [Char.isAlpha, hlower])
    | false => exact .inr (by rwa [Char.toUpper_eq_of_not_isLower (by simp [hlower])])

theorem isAlphanum_of_mem_capitalized {w : List Char} (h : ∀ c ∈ w, IsSmall c) :
    ∀ d ∈ capitalized w, d.isAlphanum = true := by
  cases w with
  | nil => simp [capitalized]
  | cons c w =>
    rw [List.forall_mem_cons] at h
    rw [capitalized, List.forall_mem_cons]
    exact ⟨isAlphanum_toUpper c h.1.isAlphanum, fun d hd => (h.2 d hd).isAlphanum⟩

/-- Words are joined to a name in lower camel case. -/
theorem isCamel_lowerCamel {s : List Char} (h : lowerCamel s ≠ []) : IsCamel (lowerCamel s) := by
  have hsmall : ∀ w ∈ words s, w ≠ [] ∧ ∀ c ∈ w, IsSmall c := fun w hw =>
    ⟨ne_nil_of_mem_words hw, fun c hc => isSmall_of_mem_words hw hc⟩
  rw [lowerCamel] at h ⊢
  cases hwords : words s with
  | nil => exact absurd (by rw [hwords]) h
  | cons w ws =>
    rw [hwords, List.forall_mem_cons] at hsmall
    obtain ⟨c, w', rfl⟩ := List.exists_cons_of_ne_nil hsmall.1.1
    have hw := List.forall_mem_cons.1 hsmall.1.2
    refine ⟨c, w' ++ (ws.map capitalized).flatten, rfl, hw.1, ?_⟩
    intro d hd
    rcases List.mem_append.1 hd with hd | hd
    · exact (hw.2 d hd).isAlphanum
    · obtain ⟨v, hv, hd⟩ := List.mem_flatten.1 hd
      obtain ⟨u, hu, rfl⟩ := List.mem_map.1 hv
      exact isAlphanum_of_mem_capitalized (hsmall.2 u hu).2 d hd

namespace Identifier

/-! ## Adjusted names -/

theorem adjust_of_isDigit {c : Char} (h : c.isDigit = true) (s : List Char) :
    adjust (c :: s) = '_' :: c :: s := by
  have hreserved : String.ofList ('_' :: c :: s) ∉ reserved := by
    have hhead : ∀ w ∈ reserved, w.toList.head? ≠ some '_' := by decide
    intro hmem
    exact hhead _ hmem (by rw [String.toList_ofList, List.head?_cons])
  simp only [adjust, List.head?_cons, Option.any_some, h, if_true, List.contains_iff_mem, hreserved,
    if_false]

theorem adjust_of_mem {name : List Char} (h : String.ofList name ∈ reserved) :
    adjust name = name ++ ['_'] := by
  have hhead : ∀ w ∈ reserved, w.toList.head?.any Char.isDigit = false := by decide
  have hdigit := hhead _ h
  rw [String.toList_ofList] at hdigit
  simp [adjust, hdigit, h]

theorem adjust_of_not_mem {name : List Char} (hdigit : name.head?.any Char.isDigit = false)
    (h : String.ofList name ∉ reserved) : adjust name = name := by
  simp [adjust, hdigit, h]

/-- What can be said of every name that a title gives. -/
structure WellFormed (i : Identifier) : Prop where
  chars : ∀ c ∈ i.base.toList, c.isAlphanum = true ∨ c = '_'
  start : (∃ c s, i.base.toList = c :: s ∧ c.isLower = true) ∨
    ∃ d s, i.base.toList = '_' :: d :: s ∧ d.isDigit = true
  markable : i.base ∉ unmarkable

theorem exists_of_ofTitle? {title : String} {i : Identifier} (h : ofTitle? title = some i) :
    ∃ name, IsCamel name ∧ name = lowerCamel title.toList ∧ i = ⟨String.ofList (adjust name)⟩ := by
  simp only [ofTitle?, List.isEmpty_iff] at h
  split at h
  · cases h
  · rename_i hne
    exact ⟨_, isCamel_lowerCamel hne, rfl, (Option.some.inj h).symm⟩

/-- An adjusted name in lower camel case is well-formed. -/
theorem wellFormed_adjust {name : List Char} (h : IsCamel name) :
    WellFormed ⟨String.ofList (adjust name)⟩ := by
  obtain ⟨c, s, rfl, hc, hs⟩ := h
  have hchars : ∀ d ∈ c :: s, d.isAlphanum = true ∨ d = '_' :=
    List.forall_mem_cons.2 ⟨.inl hc.isAlphanum, fun d hd => .inl (hs d hd)⟩
  cases hdigit : c.isDigit with
  | true =>
    rw [adjust_of_isDigit hdigit]
    refine ⟨?_, .inr ⟨c, s, by simp, hdigit⟩, ?_⟩
    · rw [String.toList_ofList]
      exact List.forall_mem_cons.2 ⟨.inr rfl, hchars⟩
    · have hlong : ∀ w ∈ unmarkable, w.toList.head? = some '_' → w.toList.tail = [] := by decide
      intro hmem
      simpa using hlong _ hmem (by simp)
  | false =>
    have hlower : c.isLower = true := hc.resolve_right (by simp [hdigit])
    by_cases hreserved : String.ofList (c :: s) ∈ reserved
    · rw [adjust_of_mem hreserved]
      refine ⟨?_, .inl ⟨c, s ++ ['_'], by simp, hlower⟩, ?_⟩
      · rw [String.toList_ofList]
        exact List.forall_mem_append.2 ⟨hchars, by simp⟩
      · have hlong : ∀ w ∈ unmarkable, w.toList.getLast? = some '_' → w.toList.length = 1 := by
          decide
        intro hmem
        simpa using hlong _ hmem (by rw [String.toList_ofList, List.getLast?_concat])
    · rw [adjust_of_not_mem (by simp [hdigit]) hreserved]
      refine ⟨by rwa [String.toList_ofList], .inl ⟨c, s, by simp, hlower⟩, ?_⟩
      have hsmall : ∀ w ∈ unmarkable, w.toList.head?.any Char.isLower = true → w ∈ reserved := by
        decide
      intro hmem
      exact hreserved (hsmall _ hmem (by simp [hlower]))

theorem wellFormed_of_ofTitle? {title : String} {i : Identifier} (h : ofTitle? title = some i) :
    i.WellFormed := by
  obtain ⟨name, hcamel, -, rfl⟩ := exists_of_ofTitle? h
  exact wellFormed_adjust hcamel

/-! ## Accessors and caches -/

/-- The name of the accessor as the target language takes it: plain, or else raw. -/
def accessor? (i : Identifier) : Option String := (plain? i.base).or (raw? i.base)

theorem cache_inj {i j : Identifier} : i.cache = j.cache ↔ i = j := by
  cases i
  cases j
  rw [cache, cache, String.append_left_inj, Identifier.mk.injEq]

namespace WellFormed

variable {i : Identifier} (h : i.WellFormed)

include h

theorem isName : Naming.isName i.base.toList = true := by
  have hchars : ∀ c ∈ i.base.toList, isNameChar c = true := by
    intro c hc
    simpa [isNameChar] using h.chars c hc
  rcases h.start with ⟨c, s, heq, hc⟩ | ⟨d, s, heq, -⟩
  · rw [heq, List.forall_mem_cons] at hchars
    rw [heq, isName_cons_iff]
    refine ⟨.inl (by simp [Char.isAlpha, hc]), hchars.2, ?_⟩
    rintro rfl
    exact absurd hc (by decide)
  · rw [heq, List.forall_mem_cons] at hchars
    rw [heq, isName_cons_iff]
    exact ⟨.inr rfl, hchars.2, by simp⟩

theorem accessor_eq_or :
    (i.base ∉ keywords ∧ i.accessor = i.base ∧ plain? i.base = some i.accessor) ∨
      i.base ∈ keywords ∧ i.accessor = "r#" ++ i.base ∧ plain? i.base = none ∧
        raw? i.base = some i.accessor := by
  by_cases hk : i.base ∈ keywords
  · have haccessor : i.accessor = "r#" ++ i.base := by simp [accessor, hk]
    rw [haccessor]
    exact .inr ⟨hk, rfl, plain?_of_mem hk, raw?_of_isName h.isName h.markable⟩
  · have haccessor : i.accessor = i.base := by simp [accessor, hk]
    rw [haccessor]
    exact .inl ⟨hk, rfl, plain?_of_isName h.isName hk⟩

theorem accessor?_eq : i.accessor? = some i.accessor := by
  rcases h.accessor_eq_or with ⟨-, -, hplain⟩ | ⟨-, -, hnone, hraw⟩
  · rw [accessor?, hplain, Option.some_or]
  · rw [accessor?, hnone, hraw, Option.none_or]

theorem isName_cache : Naming.isName i.cache.toList = true := by
  have hsuffix : "Cache".toList.all isNameChar = true := by decide
  rw [toList_cache]
  exact isName_append h.isName (List.all_eq_true.1 hsuffix)

/-- No keyword ends as the names of caches do. -/
theorem plain?_cache : plain? i.cache = some i.cache := by
  have hends : ∀ w ∈ keywords, ¬ "Cache".toList <:+ w.toList := by decide
  apply plain?_of_isName h.isName_cache
  intro hk
  exact hends _ hk (toList_cache i ▸ List.suffix_append _ _)

theorem cache_ne_accessor : i.cache ≠ i.accessor := by
  intro heq
  rcases h.accessor_eq_or with ⟨-, hplain, -⟩ | ⟨-, hraw, -⟩
  · rw [hplain] at heq
    simpa using (toList_cache i).symm.trans (congrArg String.toList heq)
  · exact raw_ne h.isName_cache (hraw ▸ heq.symm)

theorem accessor_inj {j : Identifier} (hj : j.WellFormed) : i.accessor = j.accessor ↔ i = j := by
  refine ⟨?_, fun heq => heq ▸ rfl⟩
  intro heq
  have hbase : i.base = j.base := by
    rcases h.accessor_eq_or with ⟨-, hi, -⟩ | ⟨-, hi, -⟩ <;>
      rcases hj.accessor_eq_or with ⟨-, hj', -⟩ | ⟨-, hj', -⟩ <;>
      rw [hi, hj'] at heq
    · exact heq
    · exact absurd heq.symm (raw_ne h.isName)
    · exact absurd heq (raw_ne hj.isName)
    · exact (String.append_right_inj _).1 heq
  cases i
  cases j
  exact congrArg Identifier.mk hbase

end WellFormed

/-- A title gives no name exactly if it has neither letters nor digits. The name that any other
title gives is well-formed. It is the name of the accessor as it is unless it is a keyword, and then
it can be marked as raw, so the accessor always has a name. The name of the cache is a plain one and
another. -/
theorem ofTitle?_wellFormed (title : String) :
    (ofTitle? title = none ↔ ∀ c ∈ title.toList, c.isAlphanum = false) ∧
      ∀ i, ofTitle? title = some i →
        i.WellFormed ∧
          ((i.base ∉ keywords ∧ i.accessor = i.base ∧ plain? i.base = some i.accessor) ∨
            i.base ∈ keywords ∧ i.accessor = "r#" ++ i.base ∧ plain? i.base = none ∧
              raw? i.base = some i.accessor) ∧
          i.accessor? = some i.accessor ∧
          plain? i.cache = some i.cache ∧ i.cache ≠ i.accessor := by
  refine ⟨ofTitle?_eq_none_iff_forall title, ?_⟩
  intro i hi
  have h := wellFormed_of_ofTitle? hi
  exact ⟨h, h.accessor_eq_or, h.accessor?_eq, h.plain?_cache, h.cache_ne_accessor⟩

theorem ofTitle?_wellFormed_match :
    ofTitle? "Match" = some ⟨"match"⟩ ∧ WellFormed ⟨"match"⟩ ∧
      accessor? ⟨"match"⟩ = some "r#match" ∧ plain? "matchCache" = some "matchCache" := by
  have htitle : ofTitle? "Match" = some ⟨"match"⟩ := by decide
  obtain ⟨hwell, -, haccessor, hcache, -⟩ := (ofTitle?_wellFormed "Match").2 _ htitle
  exact ⟨htitle, hwell, haccessor, hcache⟩

end Identifier

end IconCode.Naming

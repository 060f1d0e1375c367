import Mathlib.Computability.Language
import IconCode.Number.Parser
import IconCode.Proofs.Number.Literal
import IconCode.Proofs.Number.Listing

/-!
# Longest literals, one after the other

The grammar of literals is a regular language. Reading a literal is its longest match: of the words
of the language that a text begins with, the longest one is read, and an `e` that begins no whole
exponent stays behind. A list is read in turns, each of which takes a literal from the text, so that
there are no more turns than characters and one that ends the list.

* `Grammar.mem_literal_iff`: the words of the grammar are the texts of literals.
* `Literal.Proper.mem_exponent_of_mark`: where an `e` stands in a literal, its exponent begins.
* `Literal.longestOf_of_scan`: what is read is the longest match.
* `Progress.suffix_of_turn`, `Progress.outcome_of_turn`: what a turn does.
* `Progress.turns_eq_ends`: as many turns as there are characters, and one more, end the list.
* `scan_longest_turns_end`: the longest match, and the end of every list.
-/

namespace IconCode.Number

open scoped Computability

/-! ## The language of literals -/

namespace Grammar

def digit : Language Char := {s | ∃ c : Char, c.isDigit = true ∧ s = [c]}

def digits : Language Char := digit * digit∗

def sign : Language Char := 1 + {['+'], ['-']}

/-- Digits with a point after or among them, or with one before them. -/
def mantissa : Language Char := digits * (1 + {['.']} * digit∗) + {['.']} * digits

def exponent : Language Char := {['e'], ['E']} * sign * digits

def literal : Language Char := sign * mantissa * (1 + exponent)

theorem mem_kstar_digit_iff {s : List Char} : s ∈ digit∗ ↔ ∀ c ∈ s, c.isDigit = true := by
  rw [Language.mem_kstar]
  constructor
  · rintro ⟨words, rfl, hwords⟩ c hc
    obtain ⟨word, hword, hmem⟩ := List.mem_flatten.1 hc
    obtain ⟨d, hd, rfl⟩ := hwords word hword
    rwa [List.mem_singleton.1 hmem]
  · intro h
    refine ⟨s.map ([·]), (List.flatMap_singleton' s).symm, ?_⟩
    intro word hword
    obtain ⟨c, hc, rfl⟩ := List.mem_map.1 hword
    exact ⟨c, h c hc, rfl⟩

theorem mem_digits_iff {s : List Char} :
    s ∈ digits ↔ s ≠ [] ∧ ∀ c ∈ s, c.isDigit = true := by
  rw [digits, Language.mem_mul]
  constructor
  · rintro ⟨_, ⟨c, hc, rfl⟩, ds, hds, rfl⟩
    exact ⟨by simp, List.forall_mem_cons.2 ⟨hc, mem_kstar_digit_iff.1 hds⟩⟩
  · rintro ⟨hne, h⟩
    obtain ⟨c, ds, rfl⟩ := List.exists_cons_of_ne_nil hne
    obtain ⟨hc, hds⟩ := List.forall_mem_cons.1 h
    exact ⟨[c], ⟨c, hc, rfl⟩, ds, mem_kstar_digit_iff.2 hds, rfl⟩

theorem mem_sign_iff {s : List Char} :
    s ∈ sign ↔ ∃ o : Option Char, (∀ c ∈ o, c = '+' ∨ c = '-') ∧ o.toList = s := by
  constructor
  · rintro (rfl | rfl | rfl)
    · exact ⟨none, by simp, rfl⟩
    · exact ⟨some '+', by simp, rfl⟩
    · exact ⟨some '-', by simp, rfl⟩
  · rintro ⟨_ | c, hc, rfl⟩
    · exact .inl rfl
    · rcases hc c rfl with rfl | rfl
      · exact .inr (.inl rfl)
      · exact .inr (.inr rfl)

theorem mem_exponent_iff {s : List Char} :
    s ∈ exponent ↔ ∃ e : Exponent, e.Proper ∧ Literal.exponentText (some e) = s := by
  simp only [exponent, Language.mem_mul]
  constructor
  · rintro ⟨_, ⟨mark, hmark, _, hsign, rfl⟩, ds, hds, rfl⟩
    obtain ⟨o, ho, rfl⟩ := mem_sign_iff.1 hsign
    obtain ⟨hne, hdigits⟩ := mem_digits_iff.1 hds
    rcases hmark with rfl | rfl
    · exact ⟨⟨'e', o, ds⟩, ⟨.inl rfl, ho, hdigits, hne⟩, by simp [Literal.exponentText]⟩
    · exact ⟨⟨'E', o, ds⟩, ⟨.inr rfl, ho, hdigits, hne⟩, by simp [Literal.exponentText]⟩
  · rintro ⟨e, he, rfl⟩
    have hmark : [e.mark] ∈ ({['e'], ['E']} : Language Char) :=
      he.mark.imp (congrArg ([·])) (congrArg ([·]))
    exact ⟨_, ⟨_, hmark, _, mem_sign_iff.2 ⟨e.sign, he.sign, rfl⟩, rfl⟩, e.digits,
      mem_digits_iff.2 ⟨he.ne_nil, he.digits⟩, by simp [Literal.exponentText]⟩

theorem mem_mantissa_iff {s : List Char} :
    s ∈ mantissa ↔ ∃ (whole : List Char) (fraction : Option (List Char)),
      (∀ c ∈ whole, c.isDigit = true) ∧ (∀ ds ∈ fraction, ∀ c ∈ ds, c.isDigit = true) ∧
        (whole ≠ [] ∨ ∃ ds ∈ fraction, ds ≠ []) ∧
          whole ++ Literal.fractionText fraction = s := by
  simp only [mantissa, Language.mem_add, Language.mem_mul]
  constructor
  · rintro (⟨whole, hwhole, _, rfl | ⟨_, rfl, ds, hds, rfl⟩, rfl⟩ | ⟨_, rfl, ds, hds, rfl⟩)
    · obtain ⟨hne, hdigits⟩ := mem_digits_iff.1 hwhole
      exact ⟨whole, none, hdigits, by simp, .inl hne, rfl⟩
    · obtain ⟨hne, hdigits⟩ := mem_digits_iff.1 hwhole
      refine ⟨whole, some ds, hdigits, ?_, .inl hne, rfl⟩
      rintro _ ⟨⟩
      exact mem_kstar_digit_iff.1 hds
    · obtain ⟨hne, hdigits⟩ := mem_digits_iff.1 hds
      refine ⟨[], some ds, by simp, ?_, .inr ⟨ds, rfl, hne⟩, rfl⟩
      rintro _ ⟨⟩
      exact hdigits
  · rintro ⟨whole, fraction, hwhole, hfraction, hne, rfl⟩
    cases fraction with
    | none =>
      have hwhole' : whole ∈ digits := mem_digits_iff.2 ⟨by simpa using hne, hwhole⟩
      exact .inl ⟨whole, hwhole', [], .inl rfl, rfl⟩
    | some ds =>
      have hds := hfraction ds rfl
      by_cases hnil : whole = []
      · subst hnil
        exact .inr ⟨['.'], rfl, ds, mem_digits_iff.2 ⟨by simpa using hne, hds⟩, rfl⟩
      · exact .inl ⟨whole, mem_digits_iff.2 ⟨hnil, hwhole⟩, _,
          .inr ⟨['.'], rfl, ds, mem_kstar_digit_iff.2 hds, rfl⟩, rfl⟩

/-- The words of the grammar are the texts of literals. -/
theorem mem_literal_iff {s : List Char} :
    s ∈ literal ↔ ∃ l : Literal, l.Proper ∧ l.text = s := by
  simp only [literal, Language.mem_mul, Language.mem_add]
  constructor
  · rintro ⟨_, ⟨_, hsign, _, hmantissa, rfl⟩, u, hu, rfl⟩
    obtain ⟨o, ho, rfl⟩ := mem_sign_iff.1 hsign
    obtain ⟨whole, fraction, hwhole, hfraction, hne, rfl⟩ := mem_mantissa_iff.1 hmantissa
    rcases hu with rfl | hu
    · exact ⟨⟨o, whole, fraction, none⟩, ⟨ho, hwhole, hfraction, hne, by simp⟩,
        by simp [Literal.text, Literal.exponentText]⟩
    · obtain ⟨e, he, rfl⟩ := mem_exponent_iff.1 hu
      refine ⟨⟨o, whole, fraction, some e⟩, ⟨ho, hwhole, hfraction, hne, ?_⟩, ?_⟩
      · rintro _ ⟨⟩
        exact he
      · simp [Literal.text]
  · rintro ⟨l, hl, rfl⟩
    have hmantissa : l.whole ++ Literal.fractionText l.fraction ∈ mantissa :=
      mem_mantissa_iff.2 ⟨_, _, hl.whole, hl.fraction, hl.digits, rfl⟩
    refine ⟨_, ⟨_, mem_sign_iff.2 ⟨l.sign, hl.sign, rfl⟩, _, hmantissa, rfl⟩,
      Literal.exponentText l.exponent, ?_, by simp [Literal.text]⟩
    cases hexponent : l.exponent with
    | none => exact .inl rfl
    | some e => exact .inr (mem_exponent_iff.2 ⟨e, hl.exponent e hexponent, rfl⟩)

end Grammar

/-! ## The longest match -/

/-- Whether a text is the longest word of a language that another text begins with. -/
structure LongestOf (L : Language Char) (s p : List Char) : Prop where
  mem : p ∈ L
  begins : p <+: s
  longest : ∀ q ∈ L, q <+: s → q.length ≤ p.length

namespace Literal

section Mark

variable {c : Char} (hc : c = 'e' ∨ c = 'E')

include hc

theorem not_isDigit_mark : ¬ c.isDigit = true := by
  rcases hc with rfl | rfl <;> decide

theorem mark_notMem_sign {sign : Option Char} (h : ∀ d ∈ sign, d = '+' ∨ d = '-') :
    c ∉ sign.toList := by
  intro hmem
  have hsign := h c (Option.mem_toList.1 hmem)
  rcases hc with rfl | rfl <;> exact absurd hsign (by decide)

/-- Before its exponent a literal has no `e`. -/
theorem Proper.mark_notMem {l : Literal} (h : l.Proper) :
    c ∉ l.sign.toList ++ (l.whole ++ fractionText l.fraction) := by
  rw [List.mem_append, List.mem_append]
  rintro (hsign | hwhole | hfraction)
  · exact mark_notMem_sign hc h.sign hsign
  · exact not_isDigit_mark hc (h.whole c hwhole)
  · cases hds : l.fraction with
    | none => simp [hds, fractionText] at hfraction
    | some ds =>
      rw [hds, fractionText, List.mem_cons] at hfraction
      rcases hfraction with rfl | hfraction
      · exact absurd hc (by decide)
      · exact not_isDigit_mark hc (h.fraction ds hds c hfraction)

/-- An exponent has one `e`, at its beginning. -/
theorem eq_nil_of_exponentText {exponent : Option Exponent} (h : ∀ e ∈ exponent, e.Proper)
    {front u : List Char} (htext : exponentText exponent = front ++ c :: u) : front = [] := by
  cases exponent with
  | none => simp [exponentText] at htext
  | some e =>
    have he := h e rfl
    cases front with
    | nil => rfl
    | cons d front =>
      have htail : e.sign.toList ++ e.digits = front ++ c :: u := (List.cons.inj htext).2
      have hmem : c ∈ e.sign.toList ++ e.digits := by simp [htail]
      rcases List.mem_append.1 hmem with hsign | hdigits
      · exact absurd hsign (mark_notMem_sign hc he.sign)
      · exact absurd (he.digits c hdigits) (not_isDigit_mark hc)

/-- Where an `e` stands in a literal, its exponent begins. -/
theorem Proper.mem_exponent_of_mark {l : Literal} (h : l.Proper) {front u : List Char}
    (htext : l.text = front ++ c :: u) : c :: u ∈ Grammar.exponent := by
  have hexponent : exponentText l.exponent = c :: u := by
    have hparts : l.sign.toList ++ (l.whole ++ fractionText l.fraction) ++
        exponentText l.exponent = front ++ c :: u := by
      rw [← htext]
      simp [text]
    rcases List.append_eq_append_iff.1 hparts with ⟨between, -, hmark⟩ | ⟨between, hfront, hmark⟩
    · rwa [eq_nil_of_exponentText hc h.exponent hmark, List.nil_append] at hmark
    · cases between with
      | nil => exact hmark.symm
      | cons d between =>
        obtain rfl : c = d := (List.cons.inj hmark).1
        exact absurd (by simp [hfront]) (h.mark_notMem hc)
  cases he : l.exponent with
  | none => simp [he, exponentText] at hexponent
  | some e => exact Grammar.mem_exponent_iff.2 ⟨e, h.exponent e he, he ▸ hexponent⟩

end Mark

theorem isSome_scan_iff {s : List Char} :
    (scan s).isSome = true ↔ ∃ p ∈ Grammar.literal, p <+: s := by
  constructor
  · intro h
    obtain ⟨⟨l, rest⟩, hscan⟩ := Option.isSome_iff_exists.1 h
    exact ⟨l.text, Grammar.mem_literal_iff.2 ⟨l, proper_of_scan hscan, rfl⟩, rest,
      text_append_of_scan hscan⟩
  · rintro ⟨p, hp, rest, rfl⟩
    obtain ⟨l, hl, rfl⟩ := Grammar.mem_literal_iff.1 hp
    obtain ⟨l', rest', hscan, -⟩ := exists_scan hl rest
    rw [hscan]
    rfl

section Scan

variable {s rest : List Char} {l : Literal} (h : scan s = some (l, rest))

include h

theorem longestOf_of_scan : LongestOf Grammar.literal s l.text := by
  obtain ⟨hproper, htext, hlongest⟩ := scan_eq_some_iff_longest.1 h
  refine ⟨Grammar.mem_literal_iff.2 ⟨l, hproper, rfl⟩, ⟨rest, htext.symm⟩, ?_⟩
  rintro q hq ⟨rest', hrest'⟩
  obtain ⟨l', hl', rfl⟩ := Grammar.mem_literal_iff.1 hq
  exact hlongest l' rest' hl' hrest'.symm

theorem text_ne_nil_of_scan : l.text ≠ [] := by
  intro hnil
  have hlt := length_lt_of_scan h
  rw [← text_append_of_scan h, hnil] at hlt
  exact Nat.lt_irrefl _ hlt

/-- What begins with an `e` but with no exponent is not read. -/
theorem suffix_of_scan {front t : List Char} {c : Char} (hs : s = front ++ c :: t)
    (hc : c = 'e' ∨ c = 'E') (hnone : ∀ p ∈ Grammar.exponent, ¬ p <+: c :: t) :
    c :: t <:+ rest := by
  have hparts := (text_append_of_scan h).trans hs
  rcases List.append_eq_append_iff.1 hparts with ⟨between, -, hrest⟩ | ⟨between, htext, hrest⟩
  · exact ⟨between, hrest.symm⟩
  · cases between with
    | nil => exact ⟨[], hrest⟩
    | cons d u =>
      obtain ⟨rfl, ht⟩ := List.cons.inj hrest
      have hmem := (proper_of_scan h).mem_exponent_of_mark hc htext
      exact absurd ⟨rest, by rw [ht]; rfl⟩ (hnone _ hmem)

end Scan

end Literal

/-! ## Turns -/

theorem suffix_of_take {s rest : List Char} {x : Float} (h : take s = .ok (x, rest)) :
    rest <:+ s := by
  unfold take at h
  split at h
  · cases h
  · rename_i l rest' hscan
    split at h
    · cases h
    · cases h
      exact ⟨l.text, Literal.text_append_of_scan hscan⟩

/-- The numbers that have been read of a list, and what is left of its text. -/
structure Progress where
  found : List Float
  left : List Char

/-- What a turn comes to: the result of the list, or what there is to go on with. -/
inductive Turn where
  | ends (result : Except ReadError (List Float))
  | goesOn (next : Progress)

namespace Progress

def start (s : List Char) : Progress := ⟨[], s⟩

/-- One turn: separators are left out, and a number is read unless nothing is left. -/
def turn (p : Progress) : Turn :=
  if (p.left.dropWhile isSeparator).isEmpty then .ends (.ok p.found)
  else
    match take (p.left.dropWhile isSeparator) with
    | .error e => .ends (.error e)
    | .ok (x, rest) => .goesOn ⟨p.found ++ [x], rest⟩

/-- Up to so many turns. -/
def turns : Nat → Progress → Turn
  | 0, p => .goesOn p
  | n + 1, p =>
    match p.turn with
    | .ends r => .ends r
    | .goesOn q => q.turns n

/-- What the list comes to: the numbers that have been read and those of the text that is left. -/
def outcome (p : Progress) : Except ReadError (List Float) :=
  (numbers p.left).map (p.found ++ ·)

theorem outcome_start (s : List Char) : (start s).outcome = numbers s := by
  rw [outcome, start]
  cases numbers s <;> rfl

theorem outcome_of_turn_ends {p : Progress} {r : Except ReadError (List Float)}
    (h : p.turn = .ends r) : p.outcome = r := by
  unfold turn at h
  split at h
  · rename_i hempty
    obtain rfl := Turn.ends.inj h
    have hgap : IsGap p.left := List.dropWhile_eq_nil_iff.1 (List.isEmpty_iff.1 hempty)
    rw [outcome, numbers_of_isGap hgap, Except.map, List.append_nil]
  · rename_i hne
    split at h
    · rename_i e htake
      obtain rfl := Turn.ends.inj h
      rw [outcome, numbers_eq_error (by simpa using hne) htake, Except.map]
    · cases h

/-- A turn that goes on takes a number from the text that is left. -/
theorem exists_take_of_turn {p q : Progress} (h : p.turn = .goesOn q) :
    ∃ x, take (p.left.dropWhile isSeparator) = .ok (x, q.left) ∧ q.found = p.found ++ [x] := by
  unfold turn at h
  split at h
  · cases h
  · split at h
    · cases h
    · rename_i x rest htake
      obtain rfl := Turn.goesOn.inj h
      exact ⟨x, htake, rfl⟩

theorem outcome_of_turn {p q : Progress} (h : p.turn = .goesOn q) : q.outcome = p.outcome := by
  obtain ⟨x, htake, hfound⟩ := exists_take_of_turn h
  rw [outcome, outcome, numbers_eq_cons htake, hfound]
  cases numbers q.left with
  | error e => rfl
  | ok xs => simp [Except.map]

/-- A turn that goes on leaves an end of the text, and less than there was. -/
theorem suffix_of_turn {p q : Progress} (h : p.turn = .goesOn q) :
    q.left <:+ p.left ∧ q.left.length < p.left.length := by
  obtain ⟨x, htake, -⟩ := exists_take_of_turn h
  have hlt := length_lt_of_take htake
  have hle := length_dropWhile_le isSeparator p.left
  exact ⟨(suffix_of_take htake).trans (List.dropWhile_suffix _), by omega⟩

/-- As many turns as there are characters left, and one more, end the list. -/
theorem turns_eq_ends {p : Progress} {n : Nat} (h : p.left.length < n) :
    p.turns n = .ends p.outcome := by
  induction n generalizing p with
  | zero => exact absurd h (Nat.not_lt_zero _)
  | succ n ih =>
    rw [turns]
    cases hturn : p.turn with
    | ends r => rw [outcome_of_turn_ends hturn]
    | goesOn q =>
      have hlt := (suffix_of_turn hturn).2
      have hq : q.left.length < n := by omega
      show q.turns n = .ends p.outcome
      rw [ih hq, outcome_of_turn hturn]

end Progress

/-- A literal is read if and only if a text begins with a word of the grammar. What is read is then
the longest such word, the text is that word and what is left, and an `e` that begins no exponent is
left. So each turn of a list leaves less of its text, and after one turn more than the text has
characters the list has ended with its result. -/
theorem scan_longest_turns_end (s : List Char) :
    ((Literal.scan s).isSome = true ↔ ∃ p ∈ Grammar.literal, p <+: s) ∧
      (∀ l rest, Literal.scan s = some (l, rest) →
        LongestOf Grammar.literal s l.text ∧ l.text ≠ [] ∧ l.text ++ rest = s ∧
          ∀ front c t, s = front ++ c :: t → c = 'e' ∨ c = 'E' →
            (∀ p ∈ Grammar.exponent, ¬ p <+: c :: t) → c :: t <:+ rest) ∧
      (∀ p q : Progress, p.turn = .goesOn q →
        q.left <:+ p.left ∧ q.left.length < p.left.length) ∧
      ∀ n, s.length < n → (Progress.start s).turns n = .ends (numbers s) := by
  refine ⟨Literal.isSome_scan_iff, ?_, fun _ _ => Progress.suffix_of_turn, ?_⟩
  · intro l rest h
    exact ⟨Literal.longestOf_of_scan h, Literal.text_ne_nil_of_scan h,
      Literal.text_append_of_scan h, fun _ _ _ => Literal.suffix_of_scan h⟩
  · intro n hn
    have hends : (Progress.start s).turns n = .ends (Progress.start s).outcome :=
      Progress.turns_eq_ends hn
    rwa [Progress.outcome_start] at hends

theorem scan_longest_turns_end_partial :
    LongestOf Grammar.literal "-1.5e+x".toList "-1.5".toList ∧
      (∀ p ∈ Grammar.exponent, ¬ p <+: "e+x".toList) ∧ "e+x".toList <:+ "e+x".toList ∧
      (⟨[2.0], " ,-1.5e+x".toList⟩ : Progress).turn = .goesOn ⟨[2.0, -1.5], "e+x".toList⟩ ∧
      "e+x".length < " ,-1.5e+x".length ∧
      (Progress.start "-1.5e+x".toList).turns 8 = .ends (numbers "-1.5e+x".toList) := by
  have hscan : Literal.scan "-1.5e+x".toList =
      some (⟨some '-', ['1'], some ['5'], none⟩, "e+x".toList) := rfl
  -- An exponent has a digit.
  have hnone : ∀ p ∈ Grammar.exponent, ¬ p <+: "e+x".toList := by
    intro p hp hbegins
    obtain ⟨e, he, rfl⟩ := Grammar.mem_exponent_iff.1 hp
    obtain ⟨d, hd⟩ := List.exists_mem_of_ne_nil _ he.ne_nil
    have hmem : d ∈ "e+x".toList := hbegins.subset (by simp [Literal.exponentText, hd])
    have hall : "e+x".toList.all (!·.isDigit) = true := rfl
    exact absurd (List.all_eq_true.1 hall d hmem) (by simp [he.digits d hd])
  have htake : take "-1.5e+x".toList = .ok (-1.5, "e+x".toList) :=
    toOption_eq_some_iff.1 (by decide +kernel)
  have hturn : (⟨[2.0], " ,-1.5e+x".toList⟩ : Progress).turn =
      .goesOn ⟨[2.0, -1.5], "e+x".toList⟩ := by
    have hdrop : " ,-1.5e+x".toList.dropWhile isSeparator = "-1.5e+x".toList := rfl
    simp only [Progress.turn, hdrop, htake]
    rfl
  obtain ⟨-, hread, hless, hends⟩ := scan_longest_turns_end "-1.5e+x".toList
  obtain ⟨hlongest, -, -, hmark⟩ := hread _ _ hscan
  exact ⟨hlongest, hnone, hmark "-1.5".toList 'e' "+x".toList (by decide) (.inl rfl) hnone, hturn,
    (hless _ _ hturn).2, hends 8 (by decide)⟩

end IconCode.Number

import Mathlib.Data.List.TakeWhile
import IconCode.Number.Literal

/-!
# The grammar of literals

A literal has digits before or after its point. Reading takes the longest literal that a text begins
with: what follows it does not continue it, and no other literal at the beginning of the text is
longer.

* `scan_append`, `scan_eq_some_iff`: a literal is read if what follows does not continue it.
* `exists_longer`: what does continue it makes a longer literal.
* `scan_eq_some_iff_longest`, `scan_eq_none_iff`: what is read of a text.
-/

namespace IconCode

/-! ## Runs of characters -/

namespace Text

section Run

variable {p : Char → Bool} {run : List Char} (hrun : ∀ c ∈ run, p c = true) {c : Char}
  (hc : p c = false) (s : List Char)

include hrun hc

theorem takeWhile_run : (run ++ c :: s).takeWhile p = run := by
  rw [List.takeWhile_append_of_pos hrun, List.takeWhile_cons_of_neg (by simp [hc]), List.append_nil]

theorem dropWhile_run : (run ++ c :: s).dropWhile p = c :: s := by
  rw [List.dropWhile_append_of_pos hrun, List.dropWhile_cons_of_neg (by simp [hc])]

end Run

theorem eq_false_of_mem_head?_dropWhile {p : Char → Bool} {s : List Char} {c : Char}
    (h : c ∈ (s.dropWhile p).head?) : p c = false := by
  have hnot := List.head?_dropWhile_not p s
  rw [Option.mem_def.1 h] at hnot
  simpa using hnot

end Text

namespace Number

/-! ## Literals -/

/-- Whether the parts of an exponent are an `e`, a sign and at least one digit. -/
structure Exponent.Proper (e : Exponent) : Prop where
  mark : e.mark = 'e' ∨ e.mark = 'E'
  sign : ∀ c ∈ e.sign, c = '+' ∨ c = '-'
  digits : ∀ c ∈ e.digits, c.isDigit = true
  ne_nil : e.digits ≠ []

namespace Literal

/-- Whether the parts of a literal are a sign, digits with a point after or before some of them, and
an exponent. -/
structure Proper (l : Literal) : Prop where
  sign : ∀ c ∈ l.sign, c = '+' ∨ c = '-'
  whole : ∀ c ∈ l.whole, c.isDigit = true
  fraction : ∀ ds ∈ l.fraction, ∀ c ∈ ds, c.isDigit = true
  digits : l.whole ≠ [] ∨ ∃ ds ∈ l.fraction, ds ≠ []
  exponent : ∀ e ∈ l.exponent, e.Proper

/-- Whether a text does not continue a literal before it: it begins with no digit, with no point
unless the literal has a point or an exponent, and with no exponent unless the literal has one. -/
structure Stops (l : Literal) (rest : List Char) : Prop where
  digit : ∀ c ∈ rest.head?, c.isDigit = false
  point : l.fraction = none → l.exponent = none → rest.head? ≠ some '.'
  exponent : l.exponent = none → (takeExponent rest).1 = none

/-! ## Parts -/

section Parts

variable {s rest : List Char}

theorem takeDigits_of_digits {ds : List Char} (h : ∀ c ∈ ds, c.isDigit = true)
    (hrest : ∀ c ∈ rest.head?, c.isDigit = false) : takeDigits (ds ++ rest) = (ds, rest) := by
  cases rest with
  | nil => rw [takeDigits, List.append_nil, List.takeWhile_eq_self_iff.2 h,
      List.dropWhile_eq_nil_iff.2 h]
  | cons c rest =>
    have hc := hrest c rfl
    rw [takeDigits, Text.takeWhile_run h hc, Text.dropWhile_run h hc]

theorem isDigit_of_mem_takeDigits {c : Char} (h : c ∈ (takeDigits s).1) : c.isDigit = true :=
  List.mem_takeWhile_imp h

theorem isDigit_head?_takeDigits (s : List Char) :
    ∀ c ∈ (takeDigits s).2.head?, c.isDigit = false :=
  fun _ => Text.eq_false_of_mem_head?_dropWhile

theorem takeSign_of_sign {sign : Option Char} (h : ∀ c ∈ sign, c = '+' ∨ c = '-')
    (hrest : ∀ c ∈ rest.head?, c ≠ '+' ∧ c ≠ '-') :
    takeSign (sign.toList ++ rest) = (sign, rest) := by
  cases sign with
  | none =>
    cases rest with
    | nil => rfl
    | cons c rest =>
      obtain ⟨hplus, hminus⟩ := hrest c rfl
      simp [takeSign, hplus, hminus]
  | some c =>
    rcases h c rfl with rfl | rfl
    · rfl
    · rfl

theorem sign_of_mem_takeSign {c : Char} (h : c ∈ (takeSign s).1) : c = '+' ∨ c = '-' := by
  unfold takeSign at h
  split at h
  · exact .inl (Option.some.inj h).symm
  · exact .inr (Option.some.inj h).symm
  · cases h

theorem takeFraction_of_digits {fraction : Option (List Char)}
    (h : ∀ ds ∈ fraction, ∀ c ∈ ds, c.isDigit = true)
    (hrest : ∀ c ∈ rest.head?, c.isDigit = false)
    (hpoint : fraction = none → rest.head? ≠ some '.') :
    takeFraction (fractionText fraction ++ rest) = (fraction, rest) := by
  cases fraction with
  | none =>
    have hne := hpoint rfl
    unfold takeFraction
    split
    · rename_i heq
      rw [fractionText, List.nil_append] at heq
      simp [heq] at hne
    · rfl
  | some ds =>
    have hdigits := takeDigits_of_digits (h ds rfl) hrest
    simp only [fractionText, List.cons_append, takeFraction, hdigits]

theorem head?_ne_of_takeFraction (h : (takeFraction s).1 = none) :
    (takeFraction s).2 = s ∧ s.head? ≠ some '.' := by
  unfold takeFraction at h ⊢
  split at h
  · cases h
  · rename_i hne
    refine ⟨rfl, ?_⟩
    intro hpoint
    obtain ⟨t, rfl⟩ := List.head?_eq_some_iff.1 hpoint
    exact hne t rfl

theorem isDigit_head?_takeFraction (h : ∀ c ∈ s.head?, c.isDigit = false) :
    ∀ c ∈ (takeFraction s).2.head?, c.isDigit = false := by
  unfold takeFraction
  split
  · exact isDigit_head?_takeDigits _
  · exact h

theorem takeExponent_of_none (h : (takeExponent s).1 = none) : takeExponent s = (none, s) := by
  have htext := takeExponent_append s
  rw [h] at htext
  exact Prod.ext h htext

theorem isDigit_head?_takeExponent (h : ∀ c ∈ s.head?, c.isDigit = false) :
    ∀ c ∈ (takeExponent s).2.head?, c.isDigit = false := by
  cases s with
  | nil => exact h
  | cons c s =>
    simp only [takeExponent]
    split
    · split
      · exact h
      · exact isDigit_head?_takeDigits _
    · exact h

theorem takeExponent_of_proper {e : Exponent} (h : e.Proper)
    (hrest : ∀ c ∈ rest.head?, c.isDigit = false) :
    takeExponent (exponentText (some e) ++ rest) = (some e, rest) := by
  have hfirst : ∀ c ∈ (e.digits ++ rest).head?, c ≠ '+' ∧ c ≠ '-' := by
    intro c hc
    obtain ⟨d, ds, hds⟩ := List.exists_cons_of_ne_nil h.ne_nil
    rw [hds, List.cons_append, List.head?_cons, Option.mem_some_iff] at hc
    subst hc
    have hdigit := h.digits d (by simp [hds])
    refine ⟨?_, ?_⟩ <;> rintro rfl <;> cases hdigit
  rw [exponentText, List.cons_append, List.append_assoc, takeExponent, if_pos h.mark]
  simp only [takeSign_of_sign h.sign hfirst, takeDigits_of_digits h.digits hrest]
  rw [if_neg]
  simpa using h.ne_nil

theorem proper_of_mem_takeExponent {e : Exponent} (h : e ∈ (takeExponent s).1) : e.Proper := by
  cases s with
  | nil => cases h
  | cons c s =>
    simp only [takeExponent] at h
    split at h
    · rename_i hmark
      split at h
      · cases h
      · rename_i hne
        cases h
        exact ⟨hmark, fun _ => sign_of_mem_takeSign, fun _ => isDigit_of_mem_takeDigits,
          by simpa using hne⟩
    · cases h

end Parts

/-! ## Reading a literal back -/

section Append

variable {l : Literal} (h : l.Proper) {rest : List Char} (hrest : l.Stops rest)

include h

/-- After its sign, a literal begins with a digit or a point. -/
theorem Proper.head?_whole (t : List Char) :
    ∀ c ∈ (l.whole ++ (fractionText l.fraction ++ t)).head?, c.isDigit = true ∨ c = '.' := by
  intro c hc
  cases hwhole : l.whole with
  | cons d ds =>
    rw [hwhole, List.cons_append, List.head?_cons, Option.mem_some_iff] at hc
    subst hc
    exact .inl (h.whole d (by simp [hwhole]))
  | nil =>
    obtain hne | ⟨ds, hds, -⟩ := h.digits
    · exact absurd hwhole hne
    · rw [hwhole, Option.mem_def.1 hds] at hc
      exact .inr (Option.some.inj hc).symm

include hrest

theorem takeExponent_stops :
    takeExponent (exponentText l.exponent ++ rest) = (l.exponent, rest) := by
  cases hexponent : l.exponent with
  | none => exact takeExponent_of_none (hrest.exponent hexponent)
  | some e => exact takeExponent_of_proper (h.exponent e hexponent) hrest.digit

theorem isDigit_head?_exponent :
    ∀ c ∈ (exponentText l.exponent ++ rest).head?, c.isDigit = false := by
  intro c hc
  cases hexponent : l.exponent with
  | none =>
    rw [hexponent] at hc
    exact hrest.digit c hc
  | some e =>
    rw [hexponent] at hc
    obtain rfl : e.mark = c := Option.some.inj hc
    rcases (h.exponent e hexponent).mark with hmark | hmark <;> rw [hmark] <;> rfl

theorem takeFraction_stops :
    takeFraction (fractionText l.fraction ++ (exponentText l.exponent ++ rest)) =
      (l.fraction, exponentText l.exponent ++ rest) := by
  refine takeFraction_of_digits h.fraction (isDigit_head?_exponent h hrest) ?_
  intro hfraction
  cases hexponent : l.exponent with
  | none => exact hrest.point hfraction hexponent
  | some e =>
    intro hpoint
    have hmark : e.mark = '.' := Option.some.inj hpoint
    rcases (h.exponent e hexponent).mark with hm | hm <;> rw [hm] at hmark <;> cases hmark

theorem takeDigits_stops :
    takeDigits (l.whole ++ (fractionText l.fraction ++ (exponentText l.exponent ++ rest))) =
      (l.whole, fractionText l.fraction ++ (exponentText l.exponent ++ rest)) := by
  refine takeDigits_of_digits h.whole ?_
  intro c hc
  cases hfraction : l.fraction with
  | none =>
    rw [hfraction] at hc
    exact isDigit_head?_exponent h hrest c hc
  | some ds =>
    rw [hfraction] at hc
    obtain rfl : '.' = c := Option.some.inj hc
    rfl

theorem scan_append : scan (l.text ++ rest) = some (l, rest) := by
  have hsign : takeSign (l.text ++ rest) =
      (l.sign, l.whole ++ (fractionText l.fraction ++ (exponentText l.exponent ++ rest))) := by
    rw [text]
    simp only [List.append_assoc]
    refine takeSign_of_sign h.sign ?_
    intro c hc
    refine ⟨?_, ?_⟩ <;> rintro rfl <;> rcases h.head?_whole _ _ hc with hc | hc <;> cases hc
  have hdigits : (l.whole.isEmpty && (l.fraction.getD []).isEmpty) = false := by
    obtain hne | ⟨ds, hds, hne⟩ := h.digits
    · simp [hne]
    · simp [Option.mem_def.1 hds, hne]
  simp only [scan, hsign, takeDigits_stops h hrest, takeFraction_stops h hrest,
    takeExponent_stops h hrest, hdigits]
  rfl

end Append

theorem stops_nil (l : Literal) : l.Stops [] := by
  constructor <;> simp [takeExponent]

/-- A text is a literal in one way only. -/
theorem Proper.text_injective {l l' : Literal} (h : l.Proper) (h' : l'.Proper)
    (htext : l.text = l'.text) : l = l' := by
  have hscan := scan_append h l.stops_nil
  rw [htext, scan_append h' l'.stops_nil] at hscan
  cases hscan
  rfl

/-! ## What is read -/

section Scan

variable {s rest : List Char} {l : Literal} (h : scan s = some (l, rest))

include h

theorem proper_of_scan : l.Proper := by
  simp only [scan] at h
  split at h
  · cases h
  · rename_i hdigits
    cases h
    refine ⟨fun _ => sign_of_mem_takeSign, fun _ => isDigit_of_mem_takeDigits, ?_, ?_,
      fun _ => proper_of_mem_takeExponent⟩
    · intro ds hds c hc
      unfold takeFraction at hds
      split at hds
      · cases hds
        exact isDigit_of_mem_takeDigits hc
      · cases hds
    · by_cases hwhole : (takeDigits (takeSign s).2).1 = []
      · right
        rw [hwhole] at hdigits
        cases hf : (takeFraction (takeDigits (takeSign s).2).2).1 with
        | none => simp [hf] at hdigits
        | some ds => exact ⟨ds, rfl, by simpa [hf] using hdigits⟩
      · exact .inl hwhole

theorem stops_of_scan : l.Stops rest := by
  simp only [scan] at h
  split at h
  · cases h
  · cases h
    have hdigits := isDigit_head?_takeDigits (takeSign s).2
    generalize (takeDigits (takeSign s).2).2 = t at hdigits ⊢
    refine ⟨isDigit_head?_takeExponent (isDigit_head?_takeFraction hdigits), ?_, ?_⟩
    · intro hfraction hexponent
      obtain ⟨hrest, hpoint⟩ := head?_ne_of_takeFraction hfraction
      rw [takeExponent_of_none hexponent, hrest]
      exact hpoint
    · intro hexponent
      rw [takeExponent_of_none hexponent]
      exact hexponent

end Scan

theorem scan_eq_some_iff {s rest : List Char} {l : Literal} :
    scan s = some (l, rest) ↔ l.Proper ∧ l.Stops rest ∧ s = l.text ++ rest := by
  refine ⟨fun h => ⟨proper_of_scan h, stops_of_scan h, (text_append_of_scan h).symm⟩, ?_⟩
  rintro ⟨hproper, hstops, rfl⟩
  exact scan_append hproper hstops

/-! ## Longer literals -/

/-- The literal with a digit more at its end. -/
def push (l : Literal) (c : Char) : Literal :=
  match l.exponent, l.fraction with
  | some e, _ => { l with exponent := some { e with digits := e.digits ++ [c] } }
  | none, some ds => { l with fraction := some (ds ++ [c]) }
  | none, none => { l with whole := l.whole ++ [c] }

theorem text_push (l : Literal) (c : Char) : (l.push c).text = l.text ++ [c] := by
  obtain ⟨sign, whole, fraction, exponent⟩ := l
  cases exponent with
  | some e => simp [push, text, exponentText]
  | none => cases fraction <;> simp [push, text, fractionText, exponentText]

theorem Proper.push {l : Literal} (h : l.Proper) {c : Char} (hc : c.isDigit = true) :
    (l.push c).Proper := by
  have hconcat : ∀ {ds : List Char}, (∀ d ∈ ds, d.isDigit = true) →
      ∀ d ∈ ds ++ [c], d.isDigit = true := by
    intro ds hds d hd
    rcases List.mem_append.1 hd with hd | hd
    · exact hds d hd
    · rwa [List.mem_singleton.1 hd]
  obtain ⟨sign, whole, fraction, exponent⟩ := l
  cases exponent with
  | some e =>
    have he := h.exponent e rfl
    refine { h with exponent := ?_ }
    rintro _ ⟨⟩
    exact { he with digits := hconcat he.digits, ne_nil := by simp }
  | none =>
    cases fraction with
    | some ds =>
      refine { h with fraction := ?_, digits := .inr ⟨_, rfl, by simp⟩ }
      rintro _ ⟨⟩
      exact hconcat (h.fraction ds rfl)
    | none => exact { h with whole := hconcat h.whole, digits := .inl (by simp [Literal.push]) }

/-- What continues a literal makes a longer one. -/
theorem exists_longer {l : Literal} (h : l.Proper) {rest : List Char} (hrest : ¬ l.Stops rest) :
    ∃ (l' : Literal) (rest' : List Char), l'.Proper ∧ l'.text ++ rest' = l.text ++ rest ∧
      l.text.length < l'.text.length := by
  by_cases hdigit : ∃ c ∈ rest.head?, c.isDigit = true
  · obtain ⟨c, hc, hdigit⟩ := hdigit
    obtain ⟨t, rfl⟩ := List.head?_eq_some_iff.1 hc
    exact ⟨l.push c, t, h.push hdigit, by simp [text_push], by simp [text_push]⟩
  by_cases hpoint : l.fraction = none ∧ l.exponent = none ∧ rest.head? = some '.'
  · obtain ⟨hfraction, hexponent, hpoint⟩ := hpoint
    obtain ⟨t, rfl⟩ := List.head?_eq_some_iff.1 hpoint
    have hwhole : l.whole ≠ [] := by simpa [hfraction] using h.digits
    have htext : ({ l with fraction := some [] } : Literal).text = l.text ++ ['.'] := by
      simp [text, fractionText, exponentText, hfraction, hexponent]
    refine ⟨{ l with fraction := some [] }, t,
      { h with fraction := ?_, digits := .inl hwhole }, by simp [htext], by simp [htext]⟩
    rintro _ ⟨⟩
    simp
  by_cases hexponent : l.exponent = none ∧ (takeExponent rest).1 ≠ none
  · obtain ⟨hexponent, hsome⟩ := hexponent
    obtain ⟨e, he⟩ := Option.ne_none_iff_exists'.1 hsome
    have htext : ({ l with exponent := some e } : Literal).text =
        l.text ++ exponentText (some e) := by
      simp [text, exponentText, hexponent]
    have hrest : exponentText (some e) ++ (takeExponent rest).2 = rest := by
      rw [← he, takeExponent_append]
    refine ⟨{ l with exponent := some e }, (takeExponent rest).2, { h with exponent := ?_ }, ?_, ?_⟩
    · rintro _ ⟨⟩
      exact proper_of_mem_takeExponent he
    · rw [htext, List.append_assoc, hrest]
    · simp [htext, exponentText]
  · refine absurd ⟨?_, ?_, ?_⟩ hrest
    · simpa using hdigit
    · exact fun hf he hp => hpoint ⟨hf, he, hp⟩
    · exact fun he => Classical.not_not.1 fun hsome => hexponent ⟨he, hsome⟩

/-- If a text begins with a literal, then a literal is read that is at least as long. -/
theorem exists_scan {l : Literal} (h : l.Proper) (rest : List Char) :
    ∃ l' rest', scan (l.text ++ rest) = some (l', rest') ∧ l.text.length ≤ l'.text.length := by
  by_cases hrest : l.Stops rest
  · exact ⟨l, rest, scan_append h hrest, Nat.le_refl _⟩
  · obtain ⟨m, t, hm, htext, hlt⟩ := exists_longer h hrest
    have _shorter : t.length < rest.length := by
      have hlength := congrArg List.length htext
      simp only [List.length_append] at hlength
      omega
    obtain ⟨l', rest', hscan, hle⟩ := exists_scan hm t
    rw [htext] at hscan
    exact ⟨l', rest', hscan, by omega⟩
termination_by rest.length

/-! ## The longest literal -/

/-- A text begins with a literal, and with none that is longer. -/
structure Longest (s : List Char) (l : Literal) (rest : List Char) : Prop where
  proper : l.Proper
  text_eq : s = l.text ++ rest
  longest : ∀ (l' : Literal) (rest' : List Char), l'.Proper → s = l'.text ++ rest' →
    l'.text.length ≤ l.text.length

theorem scan_eq_some_iff_longest {s rest : List Char} {l : Literal} :
    scan s = some (l, rest) ↔ Longest s l rest := by
  constructor
  · intro h
    obtain ⟨hproper, -, htext⟩ := scan_eq_some_iff.1 h
    refine ⟨hproper, htext, ?_⟩
    rintro l' rest' h' rfl
    obtain ⟨m, t, hscan, hle⟩ := exists_scan h' rest'
    rw [h] at hscan
    cases hscan
    exact hle
  · rintro ⟨hproper, rfl, hlongest⟩
    obtain ⟨m, t, hscan, hle⟩ := exists_scan hproper rest
    obtain ⟨hm, -, htext⟩ := scan_eq_some_iff.1 hscan
    have hge := hlongest m t hm htext
    obtain ⟨hsame, rfl⟩ := List.append_inj htext (Nat.le_antisymm hle hge)
    rw [hscan, hproper.text_injective hm hsame]

theorem scan_eq_none_iff {s : List Char} :
    scan s = none ↔ ∀ (l : Literal) (rest : List Char), l.Proper → s ≠ l.text ++ rest := by
  constructor
  · rintro h l rest hl rfl
    obtain ⟨m, t, hscan, -⟩ := exists_scan hl rest
    rw [h] at hscan
    cases hscan
  · intro h
    cases hscan : scan s with
    | none => rfl
    | some r => exact absurd (text_append_of_scan hscan).symm (h _ _ (proper_of_scan hscan))

end Literal

end Number

end IconCode

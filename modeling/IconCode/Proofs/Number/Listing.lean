import Mathlib.Data.List.Chain
import Mathlib.Data.List.TakeWhile
import IconCode.Number.Parser
import IconCode.Proofs.Number.Literal
import IconCode.Proofs.Outcome

/-!
# The grammar of lists of numbers

A list is literals with commas and blanks before, between and after them. Nothing has to stand
between two literals if the second one cannot continue the first: it begins with a sign, or with a
point where the first has a point or an exponent already. Such a text is a list in one way only, and
taking the longest literal again and again finds it.

* `Listing.Proper.unique`: a text is a list in one way only.
* `exists_scanned`: every text is scanned by longest literals up to its end or up to a fault.
* `numbers_of_scanned`, `numbers_of_stuck`: what is read of it.
* `numbers_ok_iff_listing`: which texts are lists, and the error of every other text.
-/

namespace IconCode.Number

/-! ## Separators -/

/-- A gap is commas and blanks. -/
def IsGap (gap : List Char) : Prop := ∀ c ∈ gap, isSeparator c = true

theorem isSeparator_of_isDigit {c : Char} (h : c.isDigit = true) : isSeparator c = false := by
  simp only [Char.isDigit, Bool.and_eq_true, decide_eq_true_eq] at h
  have hlow : 48 ≤ c.toNat := h.1
  have hhigh : c.toNat ≤ 57 := h.2
  have hcomma : (c == ',') = false := by
    rw [beq_eq_false_iff_ne]
    rintro rfl
    exact absurd hlow (by decide)
  simp only [isSeparator, hcomma, Text.isBlank, Bool.false_or, Bool.or_eq_false_iff,
    Bool.and_eq_false_iff, decide_eq_false_iff_not, beq_eq_false_iff_ne]
  omega

/-! ## Neighbours -/

namespace Literal

/-- Whether a literal can stand right after another one: it begins with a sign, or it begins with a
point and the other one has a point or an exponent. -/
def Follows (next l : Literal) : Prop :=
  next.sign ≠ none ∨ next.whole = [] ∧ (l.fraction ≠ none ∨ l.exponent ≠ none)

section First

variable {l : Literal} (h : l.Proper)

include h

theorem Proper.exists_text_of_sign (hsign : l.sign ≠ none) :
    ∃ c t, l.text = c :: t ∧ (c = '+' ∨ c = '-') := by
  obtain ⟨c, hc⟩ := Option.ne_none_iff_exists'.1 hsign
  exact ⟨c, _, by rw [text, hc]; rfl, h.sign c hc⟩

theorem Proper.exists_text_of_whole (hsign : l.sign = none) (hwhole : l.whole ≠ []) :
    ∃ c t, l.text = c :: t ∧ c.isDigit = true := by
  obtain ⟨c, t, hc⟩ := List.exists_cons_of_ne_nil hwhole
  exact ⟨c, _, by rw [text, hsign, hc]; rfl, h.whole c (by simp [hc])⟩

theorem Proper.exists_text_of_point (hsign : l.sign = none) (hwhole : l.whole = []) :
    ∃ t, l.text = '.' :: t := by
  obtain hne | ⟨ds, hds, -⟩ := h.digits
  · exact absurd hwhole hne
  · exact ⟨_, by rw [text, hsign, hwhole, Option.mem_def.1 hds]; rfl⟩

theorem Proper.exists_text : ∃ c t, l.text = c :: t ∧ isSeparator c = false := by
  by_cases hsign : l.sign = none
  · by_cases hwhole : l.whole = []
    · obtain ⟨t, ht⟩ := h.exists_text_of_point hsign hwhole
      exact ⟨'.', t, ht, by decide⟩
    · obtain ⟨c, t, ht, hc⟩ := h.exists_text_of_whole hsign hwhole
      exact ⟨c, t, ht, isSeparator_of_isDigit hc⟩
  · obtain ⟨c, t, ht, rfl | rfl⟩ := h.exists_text_of_sign hsign
    · exact ⟨'+', t, ht, by decide⟩
    · exact ⟨'-', t, ht, by decide⟩

end First

theorem takeExponent_of_head? {s : List Char} (h : ∀ c ∈ s.head?, c ≠ 'e' ∧ c ≠ 'E') :
    (takeExponent s).1 = none := by
  cases s with
  | nil => rfl
  | cons c s =>
    obtain ⟨hlower, hupper⟩ := h c rfl
    simp [takeExponent, hlower, hupper]

/-- Separators do not continue a literal. -/
theorem stops_of_separator (l : Literal) {rest : List Char}
    (h : ∀ c ∈ rest.head?, isSeparator c = true) : l.Stops rest := by
  have hne : ∀ d, isSeparator d = false → rest.head? ≠ some d := by
    intro d hd hhead
    rw [h d hhead] at hd
    cases hd
  refine ⟨?_, fun _ _ => hne '.' (by decide), fun _ => takeExponent_of_head? ?_⟩
  · intro c hc
    cases hdigit : c.isDigit with
    | false => rfl
    | true => exact absurd hc (hne c (isSeparator_of_isDigit hdigit))
  · intro c hc
    refine ⟨?_, ?_⟩
    · rintro rfl
      exact hne 'e' (by decide) hc
    · rintro rfl
      exact hne 'E' (by decide) hc

theorem stops_of_follows {l next : Literal} (hnext : next.Proper) (h : next.Follows l)
    (t : List Char) : l.Stops (next.text ++ t) := by
  by_cases hsign : next.sign = none
  · obtain hne | ⟨hwhole, hpoint⟩ := h
    · exact absurd hsign hne
    · obtain ⟨u, hu⟩ := hnext.exists_text_of_point hsign hwhole
      rw [hu]
      refine ⟨?_, ?_, fun _ => takeExponent_of_head? ?_⟩
      · rintro _ ⟨⟩
        decide
      · intro hfraction hexponent
        simp [hfraction, hexponent] at hpoint
      · rintro _ ⟨⟩
        decide
  · obtain ⟨c, u, hu, hc⟩ := hnext.exists_text_of_sign hsign
    rw [hu]
    rcases hc with rfl | rfl
    all_goals
      refine ⟨?_, fun _ _ => by simp, fun _ => takeExponent_of_head? ?_⟩
      · rintro _ ⟨⟩
        decide
      · rintro _ ⟨⟩
        decide

theorem follows_of_stops {l next : Literal} (hnext : next.Proper) {t : List Char}
    (h : l.Stops (next.text ++ t)) : next.Follows l := by
  by_cases hsign : next.sign = none
  · by_cases hwhole : next.whole = []
    · obtain ⟨u, hu⟩ := hnext.exists_text_of_point hsign hwhole
      refine .inr ⟨hwhole, ?_⟩
      by_cases hfraction : l.fraction = none
      · refine .inr fun hexponent => h.point hfraction hexponent ?_
        rw [hu]
        rfl
      · exact .inl hfraction
    · obtain ⟨c, u, hu, hc⟩ := hnext.exists_text_of_whole hsign hwhole
      have hdigit := h.digit c (by rw [hu]; rfl)
      rw [hc] at hdigit
      cases hdigit
  · exact .inl hsign

end Literal

open Literal (Longest)

/-! ## Listings -/

/-- A literal in a list, with what stands before it. -/
structure Entry where
  gap : List Char
  literal : Literal
deriving DecidableEq

def Entry.text (x : Entry) : List Char := x.gap ++ x.literal.text

/-- Literals and what stands before, between and after them. -/
structure Listing where
  entries : List Entry
  last : List Char

namespace Listing

def text (L : Listing) : List Char := L.entries.flatMap Entry.text ++ L.last

def values (L : Listing) : List Float := L.entries.map (·.literal.value)

/-- Whether a listing is made of finite literals and gaps, with something in the gap between two
literals unless the second one can follow the first. -/
structure Proper (L : Listing) : Prop where
  gap : ∀ x ∈ L.entries, IsGap x.gap
  last : IsGap L.last
  literal : ∀ x ∈ L.entries, x.literal.Proper
  finite : ∀ x ∈ L.entries, x.literal.value.isFinite = true
  apart : L.entries.IsChain fun x y => y.gap = [] → y.literal.Follows x.literal

end Listing

/-! ## Scanning -/

/-- Finite longest literals, one after the other from the beginning of a text, each with the gap
before it, and what is left of the text. -/
inductive Scanned : List Char → List Entry → List Char → Prop where
  | nil (s : List Char) : Scanned s [] s
  | cons {raw gap s rest left : List Char} {l : Literal} {entries : List Entry}
      (hraw : raw = gap ++ s) (hgap : IsGap gap) (hl : Longest s l rest)
      (hfinite : l.value.isFinite = true) (h : Scanned rest entries left) :
      Scanned raw (⟨gap, l⟩ :: entries) left

/-- Where scanning gets stuck, with the text to blame: the longest literal is not finite, or there
is no literal and the text up to the next separator is no number. -/
inductive Stuck : List Char → List Char → Prop where
  | infinite {s rest : List Char} {l : Literal} (hl : Longest s l rest)
      (h : l.value.isFinite = false) : Stuck s l.text
  | noLiteral {c : Char} {s : List Char} (hc : isSeparator c = false)
      (h : ∀ (l : Literal) (rest : List Char), l.Proper → c :: s ≠ l.text ++ rest) :
      Stuck (c :: s) ((c :: s).takeWhile (!isSeparator ·))

theorem Literal.Longest.exists_cons {s rest : List Char} {l : Literal} (h : Longest s l rest) :
    ∃ c t, s = c :: t ∧ isSeparator c = false := by
  obtain ⟨c, t, ht, hc⟩ := h.proper.exists_text
  exact ⟨c, t ++ rest, by rw [h.text_eq, ht]; rfl, hc⟩

theorem Literal.Longest.length_lt {s rest : List Char} {l : Literal} (h : Longest s l rest) :
    rest.length < s.length :=
  length_lt_of_scan (scan_eq_some_iff_longest.2 h)

theorem Stuck.exists_cons {s text : List Char} (h : Stuck s text) :
    ∃ c t, s = c :: t ∧ isSeparator c = false := by
  cases h with
  | infinite hl _ => exact hl.exists_cons
  | noLiteral hc _ => exact ⟨_, _, rfl, hc⟩

/-- Every text is scanned up to its end or up to where scanning gets stuck. -/
theorem exists_scanned (raw : List Char) :
    ∃ entries gap s, Scanned raw entries (gap ++ s) ∧ IsGap gap ∧
      (s = [] ∨ ∃ text, Stuck s text) := by
  obtain ⟨gap, s, hraw, hgap, hs⟩ : ∃ gap s, raw = gap ++ s ∧ IsGap gap ∧
      ∀ c ∈ s.head?, isSeparator c = false := by
    refine ⟨raw.takeWhile isSeparator, raw.dropWhile isSeparator,
      List.takeWhile_append_dropWhile.symm, fun _ => List.mem_takeWhile_imp,
      fun _ => Text.eq_false_of_mem_head?_dropWhile⟩
  have hhere : Scanned raw [] (gap ++ s) := hraw ▸ .nil raw
  cases s with
  | nil => exact ⟨[], gap, [], hhere, hgap, .inl rfl⟩
  | cons c s =>
    cases hscan : Literal.scan (c :: s) with
    | none =>
      have hnone := Literal.scan_eq_none_iff.1 hscan
      exact ⟨[], gap, c :: s, hhere, hgap, .inr ⟨_, .noLiteral (hs c rfl) hnone⟩⟩
    | some r =>
      obtain ⟨l, rest⟩ := r
      have hl : Longest (c :: s) l rest := Literal.scan_eq_some_iff_longest.1 hscan
      cases hfinite : l.value.isFinite with
      | false => exact ⟨[], gap, c :: s, hhere, hgap, .inr ⟨_, .infinite hl hfinite⟩⟩
      | true =>
        have _shorter : rest.length < raw.length := by
          have hlt := hl.length_lt
          rw [hraw, List.length_append]
          omega
        obtain ⟨entries, gap', t, h, hgap', hend⟩ := exists_scanned rest
        exact ⟨⟨gap, l⟩ :: entries, gap', t, .cons hraw hgap hl hfinite h, hgap', hend⟩
termination_by raw.length

/-! ## Reading -/

theorem take_of_longest {s rest : List Char} {l : Literal} (h : Longest s l rest)
    (hfinite : l.value.isFinite = true) : take s = .ok (l.value, rest) := by
  simp only [take, Literal.scan_eq_some_iff_longest.2 h, Literal.finite?, hfinite, if_true]

theorem take_of_stuck {s text : List Char} (h : Stuck s text) :
    take s = .error (.invalidNumber (String.ofList text)) := by
  cases h with
  | infinite hl h =>
    simp only [take, Literal.scan_eq_some_iff_longest.2 hl, Literal.finite?, h, Bool.false_eq_true,
      if_false]
  | noLiteral hc h => simp only [take, Literal.scan_eq_none_iff.2 h]

theorem numbers_of_isGap {s : List Char} (h : IsGap s) : numbers s = .ok [] := by
  have hdrop : s.dropWhile isSeparator = [] := List.dropWhile_eq_nil_iff.2 h
  rw [numbers, if_pos (by simp [hdrop])]

theorem numbers_eq_cons {raw rest : List Char} {x : Float}
    (h : take (raw.dropWhile isSeparator) = .ok (x, rest)) :
    numbers raw = (numbers rest).map (x :: ·) := by
  have hne : ¬ (raw.dropWhile isSeparator).isEmpty = true := by
    rw [List.isEmpty_iff]
    intro hnil
    rw [hnil] at h
    cases h
  rw [numbers, if_neg hne]
  split
  · rename_i e he
    rw [h] at he
    cases he
  · rename_i y t ht
    rw [h] at ht
    cases ht
    cases numbers rest <;> rfl

theorem numbers_eq_error {raw : List Char} {e : ReadError}
    (hne : raw.dropWhile isSeparator ≠ []) (h : take (raw.dropWhile isSeparator) = .error e) :
    numbers raw = .error e := by
  rw [numbers, if_neg (by simpa using hne)]
  split
  · rename_i e' he
    rw [h] at he
    cases he
    rfl
  · rename_i y t ht
    rw [h] at ht
    cases ht

theorem numbers_of_scanned {raw left : List Char} {entries : List Entry}
    (h : Scanned raw entries left) :
    numbers raw = (numbers left).map (entries.map (·.literal.value) ++ ·) := by
  induction h with
  | nil s => cases numbers s <;> rfl
  | @cons raw gap s rest left l entries hraw hgap hl hfinite _ ih =>
    obtain ⟨c, t, rfl, hc⟩ := hl.exists_cons
    have htake := take_of_longest hl hfinite
    rw [← Text.dropWhile_run hgap hc, ← hraw] at htake
    rw [numbers_eq_cons htake, ih]
    cases numbers left <;> rfl

theorem numbers_of_stuck {gap s text : List Char} (hgap : IsGap gap) (h : Stuck s text) :
    numbers (gap ++ s) = .error (.invalidNumber (String.ofList text)) := by
  have htake := take_of_stuck h
  obtain ⟨c, t, rfl, hc⟩ := h.exists_cons
  rw [← Text.dropWhile_run hgap hc] at htake
  exact numbers_eq_error (by simp [Text.dropWhile_run hgap hc]) htake

/-! ## Listings and scans -/

namespace Scanned

theorem text_eq {raw left : List Char} {entries : List Entry} (h : Scanned raw entries left) :
    Listing.text ⟨entries, left⟩ = raw := by
  induction h with
  | nil s => rfl
  | cons hraw _ hl _ _ ih =>
    rw [hraw, hl.text_eq, ← ih]
    simp [Listing.text, Entry.text]

theorem proper {raw left : List Char} {entries : List Entry} (h : Scanned raw entries left)
    (hleft : IsGap left) : Listing.Proper ⟨entries, left⟩ := by
  induction h with
  | nil s => exact ⟨by simp, hleft, by simp, by simp, .nil⟩
  | cons hraw hgap hl hfinite hrest ih =>
    obtain ⟨hgaps, -, hliterals, hfinites, hapart⟩ := ih hleft
    refine ⟨List.forall_mem_cons.2 ⟨hgap, hgaps⟩, hleft,
      List.forall_mem_cons.2 ⟨hl.proper, hliterals⟩,
      List.forall_mem_cons.2 ⟨hfinite, hfinites⟩, ?_⟩
    cases hrest with
    | nil => exact .singleton _
    | cons hraw' _ hl' _ _ =>
      refine .cons_cons (fun hnil => ?_) hapart
      have hstops := Literal.stops_of_scan (Literal.scan_eq_some_iff_longest.2 hl)
      simp only at hnil
      rw [hraw', hnil, List.nil_append, hl'.text_eq] at hstops
      exact Literal.follows_of_stops hl'.proper hstops

theorem not_isGap {raw gap s rest : List Char} {l : Literal} (hraw : raw = gap ++ s)
    (hl : Longest s l rest) : ¬ IsGap raw := by
  obtain ⟨c, t, rfl, hc⟩ := hl.exists_cons
  intro h
  have hsep := h c (by simp [hraw])
  rw [hc] at hsep
  cases hsep

/-- Up to a gap at the end there is one way to scan a text. -/
theorem unique {raw left left' : List Char} {entries entries' : List Entry}
    (h : Scanned raw entries left) (hleft : IsGap left) (h' : Scanned raw entries' left')
    (hleft' : IsGap left') : entries = entries' ∧ left = left' := by
  induction h generalizing entries' with
  | nil s =>
    cases h' with
    | nil => exact ⟨rfl, rfl⟩
    | cons hraw _ hl _ _ => exact absurd hleft (not_isGap hraw hl)
  | cons hraw hgap hl hfinite _ ih =>
    cases h' with
    | nil => exact absurd hleft' (not_isGap hraw hl)
    | cons hraw' hgap' hl' hfinite' hrest' =>
      obtain ⟨c, t, rfl, hc⟩ := hl.exists_cons
      obtain ⟨c', t', rfl, hc'⟩ := hl'.exists_cons
      have hgaps := Text.takeWhile_run hgap hc t
      have htexts := Text.dropWhile_run hgap hc t
      rw [← hraw, hraw', Text.takeWhile_run hgap' hc'] at hgaps
      rw [← hraw, hraw', Text.dropWhile_run hgap' hc'] at htexts
      rw [htexts] at hl'
      have hscan := Literal.scan_eq_some_iff_longest.2 hl
      rw [Literal.scan_eq_some_iff_longest.2 hl'] at hscan
      cases hscan
      obtain ⟨rfl, rfl⟩ := ih hleft hrest'
      exact ⟨by rw [hgaps], rfl⟩

end Scanned

theorem Literal.stops_of_apart {l : Literal} {entries : List Entry} {last : List Char}
    (hgap : ∀ x ∈ entries, IsGap x.gap) (hlast : IsGap last)
    (hliteral : ∀ x ∈ entries, x.literal.Proper)
    (hapart : ∀ x ∈ entries.head?, x.gap = [] → x.literal.Follows l) :
    l.Stops (Listing.text ⟨entries, last⟩) := by
  cases entries with
  | nil =>
    refine stops_of_separator l fun c hc => hlast c ?_
    exact List.mem_of_mem_head? hc
  | cons x entries =>
    obtain ⟨gap, next⟩ := x
    cases gap with
    | nil =>
      have hfollows := stops_of_follows (hliteral ⟨[], next⟩ (by simp)) (hapart _ rfl rfl)
      simpa [Listing.text, Entry.text] using hfollows (Listing.text ⟨entries, last⟩)
    | cons c gap =>
      refine stops_of_separator l ?_
      rintro _ ⟨⟩
      exact hgap ⟨c :: gap, next⟩ (by simp) c (by simp)

/-- A listing is found by scanning its text. -/
theorem Listing.Proper.scanned {L : Listing} (h : L.Proper) :
    Scanned L.text L.entries L.last := by
  obtain ⟨entries, last⟩ := L
  induction entries with
  | nil => exact .nil last
  | cons x entries ih =>
    obtain ⟨hgap, hlast, hliteral, hfinite, hapart⟩ := h
    rw [List.forall_mem_cons] at hgap hliteral hfinite
    have hfirst : ∀ y ∈ entries.head?, y.gap = [] → y.literal.Follows x.literal := by
      intro y hy
      obtain ⟨rest, rfl⟩ := List.head?_eq_some_iff.1 hy
      exact (List.isChain_cons_cons.1 hapart).1
    have hrest := ih ⟨hgap.2, hlast, hliteral.2, hfinite.2, hapart.of_cons⟩
    have hstops := Literal.stops_of_apart hgap.2 hlast hliteral.2 hfirst
    refine .cons (s := x.literal.text ++ Listing.text ⟨entries, last⟩) ?_ hgap.1
      (Literal.scan_eq_some_iff_longest.1 (Literal.scan_append hliteral.1 hstops)) hfinite.1 hrest
    simp [Listing.text, Entry.text]

theorem Listing.Proper.unique {L L' : Listing} (h : L.Proper) (h' : L'.Proper)
    (htext : L.text = L'.text) : L = L' := by
  have hscanned := h'.scanned
  rw [← htext] at hscanned
  obtain ⟨hentries, hlast⟩ := h.scanned.unique h.last hscanned h'.last
  cases L
  cases L'
  exact congrArg₂ Listing.mk hentries hlast

/-! ## Lists of numbers -/

theorem numbers_eq_ok_iff {raw : List Char} {xs : List Float} :
    numbers raw = .ok xs ↔ ∃ L : Listing, L.Proper ∧ L.text = raw ∧ L.values = xs := by
  constructor
  · intro h
    obtain ⟨entries, gap, s, hscanned, hgap, rfl | ⟨text, hstuck⟩⟩ := exists_scanned raw
    · rw [List.append_nil] at hscanned
      rw [numbers_of_scanned hscanned, numbers_of_isGap hgap] at h
      refine ⟨⟨entries, gap⟩, hscanned.proper hgap, hscanned.text_eq, ?_⟩
      simpa [Except.map, Listing.values] using h
    · rw [numbers_of_scanned hscanned, numbers_of_stuck hgap hstuck] at h
      cases h
  · rintro ⟨L, hproper, rfl, rfl⟩
    rw [numbers_of_scanned hproper.scanned, numbers_of_isGap hproper.last]
    simp [Except.map, Listing.values]

theorem numbers_eq_error_iff {raw : List Char} {e : ReadError} :
    numbers raw = .error e ↔ ∃ entries gap s text, Scanned raw entries (gap ++ s) ∧ IsGap gap ∧
      Stuck s text ∧ e = .invalidNumber (String.ofList text) := by
  constructor
  · intro h
    obtain ⟨entries, gap, s, hscanned, hgap, rfl | ⟨text, hstuck⟩⟩ := exists_scanned raw
    · rw [List.append_nil] at hscanned
      rw [numbers_of_scanned hscanned, numbers_of_isGap hgap] at h
      cases h
    · rw [numbers_of_scanned hscanned, numbers_of_stuck hgap hstuck] at h
      cases h
      exact ⟨entries, gap, s, text, hscanned, hgap, hstuck, rfl⟩
  · rintro ⟨entries, gap, s, text, hscanned, hgap, hstuck, rfl⟩
    rw [numbers_of_scanned hscanned, numbers_of_stuck hgap hstuck]
    rfl

/-- A text is read if and only if it is a listing, which is then the only one, and the numbers are
the values of its literals in order. Every other text is scanned by finite longest literals up to
where that gets stuck, and the error says what stands there. -/
theorem numbers_ok_iff_listing (raw : List Char) :
    (∀ xs, numbers raw = .ok xs ↔ ∃ L : Listing, L.Proper ∧ L.text = raw ∧ L.values = xs) ∧
      (∀ L L' : Listing, L.Proper → L'.Proper → L.text = raw → L'.text = raw → L = L') ∧
      ∀ e, numbers raw = .error e ↔
        ∃ entries gap s text, Scanned raw entries (gap ++ s) ∧ IsGap gap ∧ Stuck s text ∧
          e = .invalidNumber (String.ofList text) :=
  ⟨fun _ => numbers_eq_ok_iff, fun _ _ h h' htext htext' => h.unique h' (htext.trans htext'.symm),
    fun _ => numbers_eq_error_iff⟩

end IconCode.Number

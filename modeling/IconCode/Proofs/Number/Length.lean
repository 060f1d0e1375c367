import IconCode.Proofs.Number.Listing

/-!
# Numbers and lengths

A number is one literal with a finite value and nothing but blanks around it. A length may have the
unit `px` behind it. Nothing else is read, and the error repeats the text as it stands.

* `Text.trim_eq_iff`: a text is trimmed in one way only.
* `Literal.Proper.of_mem_text`: the characters that a literal is made of.
* `number_eq_ok_iff`, `length_eq_ok_iff`: which texts are numbers and which are lengths.
* `number_length_iff_written`: the values, and the error of every other text.
-/

namespace IconCode

/-! ## Trimmed texts -/

namespace Text

/-- Whether the first text is the second one with blanks around it, which itself has no blank at
either end. -/
structure Trimmed (s t : List Char) : Prop where
  split : ∃ front back, s = front ++ t ++ back ∧ (∀ c ∈ front, isBlank c = true) ∧
    ∀ c ∈ back, isBlank c = true
  head : ∀ c ∈ t.head?, isBlank c = false
  last : ∀ c ∈ t.getLast?, isBlank c = false

theorem trimRight_append_of_blank {back : List Char} (h : ∀ c ∈ back, isBlank c = true)
    (s : List Char) : trimRight (s ++ back) = trimRight s := by
  rw [trimRight, List.reverse_append, List.dropWhile_append_of_pos (by simpa using h), trimRight]

theorem trimRight_of_last {s : List Char} (h : ∀ c ∈ s.getLast?, isBlank c = false) :
    trimRight s = s := by
  cases hr : s.reverse with
  | nil => rw [trimRight, hr, List.reverse_eq_nil_iff.1 hr]; rfl
  | cons c r =>
    have hc : isBlank c = false := h c (by rw [← List.head?_reverse, hr]; rfl)
    rw [trimRight, hr, List.dropWhile_cons_of_neg (by simp [hc]), ← hr, List.reverse_reverse]

theorem Trimmed.trim_eq {s t : List Char} (h : Trimmed s t) : trim s = t := by
  obtain ⟨⟨front, back, rfl, hfront, hback⟩, hhead, hlast⟩ := h
  cases t with
  | nil =>
    rw [List.append_nil]
    exact trim_eq_nil (List.forall_mem_append.2 ⟨hfront, hback⟩)
  | cons c t =>
    have hleft : trimLeft (front ++ c :: t ++ back) = c :: t ++ back := by
      rw [List.append_assoc, trimLeft, List.dropWhile_append_of_pos hfront]
      exact trimLeft_of_not_blank (hhead c rfl) _
    rw [trim, hleft, trimRight_append_of_blank hback, trimRight_of_last hlast]

theorem trimRight_append_takeWhile (s : List Char) :
    trimRight s ++ (s.reverse.takeWhile isBlank).reverse = s := by
  rw [trimRight, ← List.reverse_append, List.takeWhile_append_dropWhile, List.reverse_reverse]

theorem trimmed_trim (s : List Char) : Trimmed s (trim s) := by
  have hright := trimRight_append_takeWhile (trimLeft s)
  refine ⟨⟨s.takeWhile isBlank, ((trimLeft s).reverse.takeWhile isBlank).reverse, ?_, ?_, ?_⟩,
    ?_, ?_⟩
  · rw [List.append_assoc, trim, hright]
    exact List.takeWhile_append_dropWhile.symm
  · exact fun c hc => List.mem_takeWhile_imp hc
  · exact fun c hc => List.mem_takeWhile_imp (List.mem_reverse.1 hc)
  · intro c hc
    -- What is kept at the right begins as it did before.
    have hfirst : c ∈ (trimLeft s).head? := by
      rw [← hright]
      exact List.mem_head?_append_of_mem_head? hc
    exact eq_false_of_mem_head?_dropWhile hfirst
  · intro c hc
    rw [trim, trimRight, List.getLast?_reverse] at hc
    exact eq_false_of_mem_head?_dropWhile hc

theorem trim_eq_iff {s t : List Char} : trim s = t ↔ Trimmed s t := by
  constructor
  · rintro rfl
    exact trimmed_trim s
  · exact Trimmed.trim_eq

end Text

namespace Number

open Text (trim Trimmed isBlank)

/-! ## Literals -/

namespace Literal

/-- A literal is written in digits, signs, a point and an `e`. -/
theorem Proper.of_mem_text {l : Literal} (h : l.Proper) {c : Char} (hc : c ∈ l.text) :
    c.isDigit = true ∨ c ∈ ['+', '-', '.', 'e', 'E'] := by
  have hsign : ∀ {sign : Option Char}, (∀ d ∈ sign, d = '+' ∨ d = '-') → c ∈ sign.toList →
      c ∈ ['+', '-', '.', 'e', 'E'] := by
    intro sign hs hmem
    rcases hs c (Option.mem_toList.1 hmem) with rfl | rfl <;> decide
  rw [text, List.mem_append, List.mem_append, List.mem_append] at hc
  rcases hc with hc | hc | hc | hc
  · exact .inr (hsign h.sign hc)
  · exact .inl (h.whole c hc)
  · cases hfraction : l.fraction with
    | none => simp [hfraction, fractionText] at hc
    | some ds =>
      rw [hfraction, fractionText, List.mem_cons] at hc
      rcases hc with rfl | hc
      · exact .inr (by decide)
      · exact .inl (h.fraction ds hfraction c hc)
  · cases hexponent : l.exponent with
    | none => simp [hexponent, exponentText] at hc
    | some e =>
      have he := h.exponent e hexponent
      rw [hexponent, exponentText, List.mem_cons, List.mem_append] at hc
      rcases hc with rfl | hc | hc
      · rcases he.mark with hmark | hmark <;> rw [hmark] <;> exact .inr (by decide)
      · exact .inr (hsign he.sign hc)
      · exact .inl (he.digits c hc)

theorem Proper.isBlank_of_mem_text {l : Literal} (h : l.Proper) {c : Char} (hc : c ∈ l.text) :
    isBlank c = false := by
  rcases h.of_mem_text hc with hdigit | hother
  · have hseparator := isSeparator_of_isDigit hdigit
    rw [isSeparator, Bool.or_eq_false_iff] at hseparator
    exact hseparator.2
  · have hall : ['+', '-', '.', 'e', 'E'].all (!isBlank ·) = true := by decide
    simpa using List.all_eq_true.1 hall c hother

/-- A literal has no unit. -/
theorem Proper.text_ne_append_unit {l : Literal} (h : l.Proper) (t : List Char) :
    l.text ≠ t ++ ['p', 'x'] := by
  intro heq
  have hx : 'x' ∈ l.text := by simp [heq]
  rcases h.of_mem_text hx with hdigit | hother
  · cases hdigit
  · exact absurd hother (by decide)

end Literal

/-! ## Numbers -/

/-- Whether a text is, blanks around it aside, one literal with a finite value. -/
def IsNumber (s : List Char) (x : Float) : Prop :=
  ∃ l : Literal, l.Proper ∧ l.value = x ∧ x.isFinite = true ∧ Trimmed s l.text

/-- Whether a text is, blanks around it aside, one literal with a finite value, or such a literal
with the unit behind it and perhaps blanks between them. -/
def IsLength (s : List Char) (x : Float) : Prop :=
  ∃ l : Literal, l.Proper ∧ l.value = x ∧ x.isFinite = true ∧
    (Trimmed s l.text ∨
      ∃ gap, (∀ c ∈ gap, isBlank c = true) ∧ Trimmed s (l.text ++ gap ++ ['p', 'x']))

theorem finite?_eq_some_iff {l : Literal} {x : Float} :
    l.finite? = some x ↔ l.value = x ∧ x.isFinite = true := by
  rw [Literal.finite?]
  split
  · rename_i h
    simp only [Option.some.injEq]
    exact ⟨fun hx => ⟨hx, hx ▸ h⟩, fun hx => hx.1⟩
  · rename_i h
    constructor
    · intro hnone
      cases hnone
    · rintro ⟨rfl, hx⟩
      exact absurd hx h

theorem number?_eq_some_iff {s : List Char} {x : Float} : number? s = some x ↔ IsNumber s x := by
  constructor
  · intro h
    unfold number? at h
    split at h
    · rename_i l hscan
      obtain ⟨hproper, -, htext⟩ := Literal.scan_eq_some_iff.1 hscan
      obtain ⟨hvalue, hfinite⟩ := finite?_eq_some_iff.1 h
      rw [List.append_nil] at htext
      exact ⟨l, hproper, hvalue, hfinite, Text.trim_eq_iff.1 htext⟩
    · cases h
  · rintro ⟨l, hproper, hvalue, hfinite, htext⟩
    have hscan := Literal.scan_append hproper l.stops_nil
    rw [List.append_nil, ← htext.trim_eq] at hscan
    rw [number?, hscan]
    exact finite?_eq_some_iff.2 ⟨hvalue, hfinite⟩

theorem number_eq_ok_iff {s : List Char} {x : Float} : number s = .ok x ↔ IsNumber s x := by
  rw [number, ← number?_eq_some_iff]
  cases number? s <;> simp

/-! ## Lengths -/

theorem withoutUnit_append (t : List Char) : withoutUnit (t ++ ['p', 'x']) = t := by
  simp [withoutUnit]

theorem withoutUnit_of_ne {s : List Char} (h : ∀ t, s ≠ t ++ ['p', 'x']) : withoutUnit s = s := by
  unfold withoutUnit
  split
  · rename_i r hr
    exact absurd (by rw [← List.reverse_reverse s, hr]; simp) (h r.reverse)
  · rfl

/-- Before the unit of a trimmed text there can only be blanks behind a number. -/
theorem isNumber_before_unit_iff {s t : List Char} (h : Trimmed s (t ++ ['p', 'x'])) {x : Float} :
    IsNumber t x ↔ IsLength s x := by
  constructor
  · rintro ⟨l, hproper, hvalue, hfinite, ⟨⟨front, gap, rfl, hfront, hgap⟩, -, -⟩⟩
    refine ⟨l, hproper, hvalue, hfinite, .inr ⟨gap, hgap, ?_⟩⟩
    cases front with
    | nil => exact h
    | cons c front =>
      have hc : isBlank c = false := h.head c rfl
      rw [hfront c (by simp)] at hc
      cases hc
  · rintro ⟨l, hproper, hvalue, hfinite, htext | ⟨gap, hgap, htext⟩⟩
    · exact absurd (htext.trim_eq.symm.trans h.trim_eq) (hproper.text_ne_append_unit t)
    · have heq : t = l.text ++ gap :=
        List.append_cancel_right (h.trim_eq.symm.trans htext.trim_eq)
      subst heq
      refine ⟨l, hproper, hvalue, hfinite, ⟨[], gap, rfl, by simp, hgap⟩, ?_, ?_⟩
      · exact fun c hc => hproper.isBlank_of_mem_text (List.mem_of_mem_head? hc)
      · exact fun c hc => hproper.isBlank_of_mem_text (List.mem_of_mem_getLast? hc)

theorem isLength_iff_of_no_unit {s : List Char} (h : ∀ t, trim s ≠ t ++ ['p', 'x']) {x : Float} :
    IsLength s x ↔ IsNumber s x := by
  constructor
  · rintro ⟨l, hproper, hvalue, hfinite, htext | ⟨gap, -, htext⟩⟩
    · exact ⟨l, hproper, hvalue, hfinite, htext⟩
    · exact absurd htext.trim_eq (h _)
  · rintro ⟨l, hproper, hvalue, hfinite, htext⟩
    exact ⟨l, hproper, hvalue, hfinite, .inl htext⟩

theorem length_eq_ok_iff {s : List Char} {x : Float} : length s = .ok x ↔ IsLength s x := by
  have hlength : length s = .ok x ↔ IsNumber (withoutUnit (trim s)) x := by
    rw [length, ← number?_eq_some_iff]
    cases number? (withoutUnit (trim s)) <;> simp
  rw [hlength]
  by_cases hunit : ∃ t, trim s = t ++ ['p', 'x']
  · obtain ⟨t, ht⟩ := hunit
    rw [ht, withoutUnit_append]
    exact isNumber_before_unit_iff (Text.trim_eq_iff.1 ht)
  · have hne : ∀ t, trim s ≠ t ++ ['p', 'x'] := fun t ht => hunit ⟨t, ht⟩
    have htrim : number? (trim s) = number? s := by rw [number?, number?, Text.trim_trim]
    rw [withoutUnit_of_ne hne, isLength_iff_of_no_unit hne, ← number?_eq_some_iff, htrim,
      number?_eq_some_iff]

/-! ## Errors -/

theorem number_eq_error_iff {s : List Char} {e : ReadError} :
    number s = .error e ↔ (∀ x, ¬ IsNumber s x) ∧ e = .invalidNumber (String.ofList s) := by
  simp only [← number_eq_ok_iff, number]
  cases number? s <;> simp [eq_comm]

theorem length_eq_error_iff {s : List Char} {e : ReadError} :
    length s = .error e ↔ (∀ x, ¬ IsLength s x) ∧ e = .invalidNumber (String.ofList s) := by
  simp only [← length_eq_ok_iff, length]
  cases number? (withoutUnit (trim s)) <;> simp [eq_comm]

/-- A text is read as a number if and only if it is written like one, and as a length if and only if
it is a number or a number with its unit. The error of every other text repeats all of it. What is a
number is the same number as a length. -/
theorem number_length_iff_written (s : List Char) :
    (∀ x, number s = .ok x ↔ IsNumber s x) ∧
      (∀ x, length s = .ok x ↔ IsLength s x) ∧
      (∀ e, number s = .error e ↔
        (∀ x, ¬ IsNumber s x) ∧ e = .invalidNumber (String.ofList s)) ∧
      (∀ e, length s = .error e ↔
        (∀ x, ¬ IsLength s x) ∧ e = .invalidNumber (String.ofList s)) ∧
      ∀ x, number s = .ok x → length s = .ok x := by
  refine ⟨fun _ => number_eq_ok_iff, fun _ => length_eq_ok_iff, fun _ => number_eq_error_iff,
    fun _ => length_eq_error_iff, ?_⟩
  intro x hx
  obtain ⟨l, hproper, hvalue, hfinite, htext⟩ := number_eq_ok_iff.1 hx
  exact length_eq_ok_iff.2 ⟨l, hproper, hvalue, hfinite, .inl htext⟩

theorem number_length_iff_written_padded :
    number " -.5E1\u3000".toList = .ok (-5.0) ∧ length " -.5E1\u3000".toList = .ok (-5.0) ∧
      IsLength "14\tpx ".toList 14.0 := by
  have hnumber : number " -.5E1\u3000".toList = .ok (-5.0) :=
    toOption_eq_some_iff.1 (by decide +kernel)
  have hlength : length "14\tpx ".toList = .ok 14.0 :=
    toOption_eq_some_iff.1 (by decide +kernel)
  exact ⟨hnumber, (number_length_iff_written _).2.2.2.2 _ hnumber,
    ((number_length_iff_written _).2.1 _).1 hlength⟩

end Number

end IconCode

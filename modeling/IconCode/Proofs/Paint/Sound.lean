import IconCode.Paint.Block
import IconCode.Proofs.Figure.Drawn
import IconCode.Proofs.Paint.Nearest

/-!
# Sound paint

Whatever is read as a colour has its channels between 0 and 1, and whatever is read as an opacity is
finite. So it is with every style that declarations are gathered to.

* `Color.inRange_of_parse`: colours, in each way of writing them.
* `Property.sound_of_declare`, `Style.sound_of_ofBlock`: what an attribute declares, and a block.
* `Style.Sound.nearest`: what is inherited from sound styles is sound.
* `Tone.isUnit_alpha`: an alpha is held between 0 and 1 whatever the opacity.
-/

namespace IconCode

/-! ## Alpha -/

/-- A double below another one is not above it. -/
theorem le_of_below {x y : Float} (h : Scalar.below x y = true) : x ≤ y := by
  have hlt : Float.lt x y = true := of_decide_eq_true h
  change Float.le x y = true
  rw [Float.lt, decide_eq_true_eq] at hlt
  rw [Float.le, decide_eq_true_eq]
  change (x.toModel.unpack.compare y.toModel.unpack == some .lt) = true at hlt
  change (x.toModel.unpack.compare y.toModel.unpack).any (·.isLE) = true
  rw [beq_iff_eq.1 hlt]
  rfl

theorem Tone.isUnit_alpha (c : Color) (opacity : Float) :
    Color.isUnit (alpha c opacity) = true := by
  unfold alpha Scalar.atMost Scalar.atLeast
  by_cases hlow : Scalar.below 0.0 (c.a * opacity) = true
  · rw [if_pos hlow]
    by_cases hhigh : Scalar.below (c.a * opacity) 1.0 = true
    · rw [if_pos hhigh]
      simp [Color.isUnit, le_of_below hlow, le_of_below hhigh]
    · rw [if_neg hhigh]
      decide +kernel
  · rw [if_neg hlow]
    decide +kernel

/-! ## Colours -/

namespace Color

open Text (trim)

theorem isUnit_byte : ∀ n ≤ 255, isUnit (Nat.toFloat n / Nat.toFloat 255) = true := by
  decide +kernel

theorem isUnit_fifteenth : ∀ n ≤ 15, isUnit (Nat.toFloat n / Nat.toFloat 15) = true := by
  decide +kernel

theorem inRange_clear : clear.InRange := by decide +kernel

theorem inRange_black : black.InRange := by decide +kernel

theorem inRange_solid {r g b : Float} (hr : isUnit r = true) (hg : isUnit g = true)
    (hb : isUnit b = true) : (solid r g b).InRange := by
  have hone : isUnit 1.0 = true := by decide +kernel
  simp [InRange, solid, hr, hg, hb, hone]

theorem inRange_ofBytes {r g b : Nat} (hr : r ≤ 255) (hg : g ≤ 255) (hb : b ≤ 255) :
    (ofBytes r g b).InRange :=
  inRange_solid (isUnit_byte r hr) (isUnit_byte g hg) (isUnit_byte b hb)

theorem inRange_ofFifteenths {r g b : Nat} (hr : r ≤ 15) (hg : g ≤ 15) (hb : b ≤ 15) :
    (ofChannels 15 r g b).InRange :=
  inRange_solid (isUnit_fifteenth r hr) (isUnit_fifteenth g hg) (isUnit_fifteenth b hb)

/-! ### Hexadecimal digits -/

theorem le_of_hexDigit? {c : Char} {d : Nat} (h : hexDigit? c = some d) : d ≤ 15 := by
  have hle : ∀ {low high : Char}, low ≤ c ∧ c ≤ high →
      c.toNat - low.toNat ≤ high.toNat - low.toNat :=
    fun hc => Nat.sub_le_sub_right hc.2 _
  unfold hexDigit? at h
  split at h
  · rename_i hc
    simp only [Char.isDigit, Bool.and_eq_true, decide_eq_true_eq] at hc
    have hdigit : c.toNat - '0'.toNat ≤ 9 := hle hc
    cases h
    omega
  · split at h
    · rename_i hc
      have hletter : c.toNat - 'a'.toNat ≤ 5 := hle hc
      cases h
      omega
    · split at h
      · rename_i hc
        have hletter : c.toNat - 'A'.toNat ≤ 5 := hle hc
        cases h
        omega
      · cases h

theorem le_of_hexDigits? {s : List Char} {ds : List Nat} (h : hexDigits? s = some ds) :
    ∀ d ∈ ds, d ≤ 15 := by
  induction s generalizing ds with
  | nil =>
    cases h
    simp
  | cons c s ih =>
    rw [hexDigits?] at h
    split at h
    · rename_i d ds' hd hds
      cases h
      intro x hx
      rcases List.mem_cons.1 hx with rfl | hx
      · exact le_of_hexDigit? hd
      · exact ih hds x hx
    · cases h

theorem inRange_of_ofHex? {s : List Char} {c : Color} (h : ofHex? s = some c) : c.InRange := by
  unfold ofHex? at h
  split at h
  · rename_i r g b hds
    have hle := le_of_hexDigits? hds
    simp only [List.forall_mem_cons] at hle
    cases h
    exact inRange_ofFifteenths hle.1 hle.2.1 hle.2.2.1
  · rename_i r r' g g' b b' hds
    have hle := le_of_hexDigits? hds
    simp only [List.forall_mem_cons] at hle
    cases h
    exact inRange_ofBytes (by omega) (by omega) (by omega)
  · cases h

/-! ### Components -/

theorem le_of_takeByte? {s rest : List Char} {n : Nat} (h : takeByte? s = some (n, rest)) :
    n ≤ 255 := by
  simp only [takeByte?] at h
  split at h
  · cases h
  · rename_i hn
    cases h
    simp only [Bool.or_eq_true, decide_eq_true_eq, not_or] at hn
    omega

theorem inRange_of_ofComponents? {s : List Char} {c : Color} (h : ofComponents? s = some c) :
    c.InRange := by
  simp only [ofComponents?, Option.bind_eq_bind, Option.bind_eq_some_iff] at h
  obtain ⟨_, -, ⟨r, _⟩, hr, _, -, ⟨g, _⟩, hg, _, -, ⟨b, _⟩, hb, _, -, h⟩ := h
  split at h
  · cases h
    exact inRange_ofBytes (le_of_takeByte? hr) (le_of_takeByte? hg) (le_of_takeByte? hb)
  · cases h

/-! ### Names -/

theorem le_of_mem_table : ∀ entry ∈ table, entry.2.1 ≤ 255 ∧ entry.2.2.1 ≤ 255 ∧
    entry.2.2.2 ≤ 255 := by decide

theorem inRange_of_named? {s : List Char} {c : Color} (h : named? s = some c) : c.InRange := by
  unfold named? at h
  split at h
  · cases h
    exact inRange_clear
  · obtain ⟨entry, hentry, rfl⟩ := Option.map_eq_some_iff.1 h
    obtain ⟨hr, hg, hb⟩ := le_of_mem_table entry (List.mem_of_find?_eq_some hentry)
    exact inRange_ofBytes hr hg hb

theorem inRange_of_ofTrimmed? {s : List Char} {c : Color} (h : ofTrimmed? s = some c) :
    c.InRange := by
  unfold ofTrimmed? at h
  split at h
  · exact inRange_of_ofHex? h
  · exact inRange_of_ofComponents? h
  · exact inRange_of_named? h

theorem inRange_of_parse {s : List Char} {c : Color} (h : parse s = .ok c) : c.InRange := by
  unfold parse at h
  split at h
  · rename_i hc
    cases h
    exact inRange_of_ofTrimmed? hc
  · cases h

end Color

/-! ## Opacities -/

namespace Number

theorem isFinite_of_number? {s : List Char} {x : Float} (h : number? s = some x) :
    x.isFinite = true := by
  unfold number? at h
  split at h
  · unfold Literal.finite? at h
    split at h
    · rename_i hfinite
      cases h
      exact hfinite
    · cases h
  · cases h

theorem isFinite_of_number {s : List Char} {x : Float} (h : number s = .ok x) :
    x.isFinite = true := by
  unfold number at h
  split at h
  · rename_i hx
    cases h
    exact isFinite_of_number? hx
  · cases h

end Number

/-! ## Styles -/

namespace Style

/-- Whether the colours of a style are in range and its opacities finite. -/
structure Sound (s : Style) : Prop where
  fill : ∀ c ∈ s.fill, c.InRange
  stroke : ∀ c ∈ s.stroke, c.InRange
  fillOpacity : ∀ x ∈ s.fillOpacity, x.isFinite = true
  strokeOpacity : ∀ x ∈ s.strokeOpacity, x.isFinite = true
  opacity : ∀ x ∈ s.opacity, x.isFinite = true

theorem sound_empty : empty.Sound := by
  constructor <;> simp [empty]

theorem sound_initial : initial.Sound := by
  constructor <;> simp [initial, Color.inRange_black]

/-- What holds of the values of both holds of the one that counts. -/
theorem forall_mem_or {α : Type} {p : α → Prop} {x y : Option α} (hx : ∀ a ∈ x, p a)
    (hy : ∀ a ∈ y, p a) : ∀ a ∈ x.or y, p a := by
  cases x with
  | none => exact hy
  | some b => exact hx

namespace Sound

variable {lower upper : Style}

theorem merge (hl : lower.Sound) (hu : upper.Sound) : (lower.merge upper).Sound where
  fill := forall_mem_or hu.fill hl.fill
  stroke := forall_mem_or hu.stroke hl.stroke
  fillOpacity := forall_mem_or hu.fillOpacity hl.fillOpacity
  strokeOpacity := forall_mem_or hu.strokeOpacity hl.strokeOpacity
  opacity := forall_mem_or hu.opacity hl.opacity

theorem nearest {chain : List Style} (h : ∀ s ∈ chain, s.Sound) : (nearest chain).Sound := by
  induction chain with
  | nil => exact sound_initial
  | cons own chain ih =>
    rw [List.forall_mem_cons] at h
    rw [nearest_cons]
    exact (ih h.2).merge h.1

end Sound

end Style

theorem Property.sound_of_declare {p : Property} {value : List Char} {s : Style}
    (h : p.declare value = .ok s) : s.Sound := by
  cases p with
  | fill =>
    obtain ⟨c, hc, rfl⟩ := map_ok_iff.1 h
    have hrange := Color.inRange_of_parse hc
    exact { Style.sound_empty with fill := by simpa using hrange }
  | fillOpacity =>
    obtain ⟨x, hx, rfl⟩ := map_ok_iff.1 h
    have hfinite := Number.isFinite_of_number hx
    exact { Style.sound_empty with fillOpacity := by simpa using hfinite }
  | stroke =>
    obtain ⟨c, hc, rfl⟩ := map_ok_iff.1 h
    have hrange := Color.inRange_of_parse hc
    exact { Style.sound_empty with stroke := by simpa using hrange }
  | strokeWidth =>
    obtain ⟨x, -, rfl⟩ := map_ok_iff.1 h
    exact { Style.sound_empty with }
  | strokeOpacity =>
    obtain ⟨x, hx, rfl⟩ := map_ok_iff.1 h
    have hfinite := Number.isFinite_of_number hx
    exact { Style.sound_empty with strokeOpacity := by simpa using hfinite }
  | opacity =>
    obtain ⟨x, hx, rfl⟩ := map_ok_iff.1 h
    have hfinite := Number.isFinite_of_number hx
    exact { Style.sound_empty with opacity := by simpa using hfinite }
  | fillRule =>
    cases h
    exact { Style.sound_empty with }

namespace Style

theorem Sound.addClause {style style' : Style} {clause : Clause} (hs : style.Sound)
    (h : (style.addClause clause).result = .ok style') : style'.Sound := by
  cases clause with
  | blank =>
    cases h
    exact hs
  | unknown rule =>
    cases h
    exact hs
  | declaration p value =>
    simp only [Style.addClause, Outcome.result_bind_ok_iff, Outcome.result_pure,
      Except.ok.injEq] at h
    obtain ⟨declared, hd, rfl⟩ := h
    exact hs.merge (Property.sound_of_declare hd)

theorem sound_of_ofBlock {s : List Char} {style : Style} (h : (ofBlock s).result = .ok style) :
    style.Sound :=
  Outcome.foldlM_preserves Sound (fun _ _ _ hs hstep => hs.addClause hstep) sound_empty h

end Style

end IconCode

import Mathlib.Data.List.Forall2
import IconCode.Paint.ColorParser
import IconCode.Proofs.Number.Literal
import IconCode.Proofs.Paint.Fields
import IconCode.Proofs.Paint.Sound
import IconCode.Proofs.Path.Grammar

/-!
# The grammar of colours

A colour is written with three or six hexadecimal digits, with three bytes in parentheses, or with a
name. Blanks around it aside, a text is read as a colour exactly if it is written in one of these
ways. The error of every other text repeats the whole text.

* `hexDigits?_eq_some_iff`, `takeByte?_append`, `named?_eq_some_iff`: the parts.
* `ofTrimmed?_eq_some_iff`: the ways do not get into each other's way.
* `parse_ok_iff_written`: which texts are colours.
-/

namespace IconCode.Color

open Text (trim equalsIgnoringCase)
open Number.Literal (takeDigits natural)

/-! ## Grammar -/

/-- The hexadecimal digit of a value, in either case. -/
def IsHex (c : Char) (d : Nat) : Prop := "0123456789abcdef".toList[d]? = some c.toLower

/-- A byte in decimal digits, with gaps around it. -/
inductive Component : List Char → Nat → Prop where
  | mk {before digits after : List Char} (hbefore : ∀ c ∈ before, isGap c = true)
      (hdigits : ∀ c ∈ digits, c.isDigit = true) (hne : digits ≠ [])
      (hle : natural digits ≤ 255) (hafter : ∀ c ∈ after, isGap c = true) :
      Component (before ++ digits ++ after) (natural digits)

/-- The opaque colour whose channels are these parts of `top`. -/
def parts (top : Float) (x y z : Nat) : Color :=
  ⟨x.toFloat / top, y.toFloat / top, z.toFloat / top, 1.0⟩

/-- The ways to write a colour. -/
inductive Written : List Char → Color → Prop where
  | fifteenths {r g b : Char} {x y z : Nat} (hr : IsHex r x) (hg : IsHex g y) (hb : IsHex b z) :
      Written ['#', r, g, b] (parts 15.0 x y z)
  | hexadecimal {r r' g g' b b' : Char} {x x' y y' z z' : Nat} (hr : IsHex r x) (hr' : IsHex r' x')
      (hg : IsHex g y) (hg' : IsHex g' y') (hb : IsHex b z) (hb' : IsHex b' z') :
      Written ['#', r, r', g, g', b, b'] (parts 255.0 (16 * x + x') (16 * y + y') (16 * z + z'))
  | function {gap r g b : List Char} {x y z : Nat} (hgap : ∀ c ∈ gap, isGap c = true)
      (hr : Component r x) (hg : Component g y) (hb : Component b z) :
      Written ("rgb".toList ++ (gap ++ '(' :: (r ++ ',' :: (g ++ ',' :: (b ++ [')'])))))
        (parts 255.0 x y z)
  | named {name : List Char} {word : String} {x y z : Nat} (hword : (word, x, y, z) ∈ table)
      (hname : equalsIgnoringCase name word.toList = true) : Written name (parts 255.0 x y z)
  | clear {name : List Char} {word : String} (hword : word ∈ clearNames)
      (hname : equalsIgnoringCase name word.toList = true) : Written name clear

theorem ofChannels_fifteen (x y z : Nat) : ofChannels 15 x y z = parts 15.0 x y z := by
  have htop : (15 : Nat).toFloat = 15.0 := by decide +kernel
  rw [ofChannels, solid, htop, parts]

theorem ofBytes_eq (x y z : Nat) : ofBytes x y z = parts 255.0 x y z := by
  have htop : (255 : Nat).toFloat = 255.0 := by decide +kernel
  rw [ofBytes, ofChannels, solid, htop, parts]

/-! ## Hexadecimal digits -/

theorem hexDigit?_eq_none {c : Char} (h : 128 ≤ c.toNat) : hexDigit? c = none := by
  have hdigit : c.isDigit = false := by
    rw [Char.isDigit, Bool.and_eq_false_iff, decide_eq_false_iff_not, decide_eq_false_iff_not]
    exact .inr fun hle => Path.not_le_z h (Char.le_trans hle (by decide))
  have hlower : ¬ ('a' ≤ c ∧ c ≤ 'f') := fun hc =>
    Path.not_le_z h (Char.le_trans hc.2 (by decide))
  have hupper : ¬ ('A' ≤ c ∧ c ≤ 'F') := fun hc =>
    Path.not_le_z h (Char.le_trans hc.2 (by decide))
  simp [hexDigit?, hdigit, hlower, hupper]

theorem not_isHex {c : Char} (h : 128 ≤ c.toNat) (d : Nat) : ¬ IsHex c d := by
  have hlower : c.toLower = c := by
    have hnot : ¬ ('A'.val ≤ c.val ∧ c.val ≤ 'Z'.val) := fun hc =>
      Path.not_le_z h (Char.le_trans hc.2 (by decide))
    exact dif_neg hnot
  have hascii : "0123456789abcdef".toList.all (·.toNat < 128) = true := by decide
  intro hc
  rw [IsHex, hlower] at hc
  have hlt := List.all_eq_true.1 hascii c (List.mem_of_getElem? hc)
  rw [decide_eq_true_eq] at hlt
  omega

theorem IsHex.lt {c : Char} {d : Nat} (h : IsHex c d) : d < 16 := by
  obtain ⟨hd, -⟩ := List.getElem?_eq_some_iff.1 h
  exact hd

theorem hexDigit?_eq_some_iff (c : Char) (d : Nat) : hexDigit? c = some d ↔ IsHex c d := by
  have hascii : ∀ n < 128, ∀ d < 16, hexDigit? (Char.ofNat n) = some d ↔
      "0123456789abcdef".toList[d]? = some (Char.ofNat n).toLower := by
    decide +kernel
  by_cases hd : d < 16
  · refine Path.forall_char (P := fun c => hexDigit? c = some d ↔ IsHex c d) ?_ ?_ c
    · exact fun n hn => hascii n hn d hd
    · intro c hc
      simp [hexDigit?_eq_none hc, not_isHex hc]
  · constructor
    · intro h
      have hle := le_of_hexDigit? h
      omega
    · exact fun h => absurd h.lt hd

theorem hexDigits?_eq_some_iff {s : List Char} {ds : List Nat} :
    hexDigits? s = some ds ↔ List.Forall₂ IsHex s ds := by
  induction s generalizing ds with
  | nil =>
    rw [hexDigits?, List.forall₂_nil_left_iff]
    exact Option.some_inj.trans eq_comm
  | cons c s ih =>
    rw [hexDigits?]
    constructor
    · intro h
      split at h
      · rename_i d ds' hd hds
        cases h
        exact .cons ((hexDigit?_eq_some_iff c d).1 hd) (ih.1 hds)
      · cases h
    · rintro (_ | ⟨hd, hds⟩)
      rw [(hexDigit?_eq_some_iff c _).2 hd, ih.2 hds]

theorem ofHex?_eq_some {s : List Char} {c : Color} (h : ofHex? s = some c) :
    Written ('#' :: s) c := by
  unfold ofHex? at h
  split at h
  · rename_i hds
    cases h
    rcases hexDigits?_eq_some_iff.1 hds with
      _ | ⟨hr, _ | ⟨hg, _ | ⟨hb, _ | _⟩⟩⟩
    rw [ofChannels_fifteen]
    exact .fifteenths hr hg hb
  · rename_i hds
    cases h
    rcases hexDigits?_eq_some_iff.1 hds with
      _ | ⟨hr, _ | ⟨hr', _ | ⟨hg, _ | ⟨hg', _ | ⟨hb, _ | ⟨hb', _ | _⟩⟩⟩⟩⟩⟩
    rw [ofBytes_eq]
    exact .hexadecimal hr hr' hg hg' hb hb'
  · cases h

/-! ## Components -/

theorem isDigit_of_isGap {c : Char} (h : isGap c = true) : c.isDigit = false := by
  simp only [isGap, Bool.or_eq_true, beq_iff_eq] at h
  rcases h with rfl | rfl <;> rfl

theorem isGap_of_isDigit {c : Char} (h : c.isDigit = true) : isGap c = false := by
  cases hgap : isGap c with
  | false => rfl
  | true =>
    rw [isDigit_of_isGap hgap] at h
    cases h

/-- A component is taken as it is written if what follows it is neither a gap nor a digit. -/
theorem takeByte?_append {t : List Char} {n : Nat} (h : Component t n) {c : Char}
    (hgap : isGap c = false) (hdigit : c.isDigit = false) (s : List Char) :
    takeByte? (t ++ c :: s) = some (n, c :: s) := by
  cases h with
  | @mk before digits after hbefore hdigits hne hle hafter =>
    have hfirst : (before ++ digits ++ after ++ c :: s).dropWhile isGap =
        digits ++ (after ++ c :: s) := by
      obtain ⟨d, ds, rfl⟩ := List.exists_cons_of_ne_nil hne
      have hd : isGap d = false := isGap_of_isDigit (hdigits d (by simp))
      simpa using Text.dropWhile_run hbefore hd (ds ++ (after ++ c :: s))
    have hend : ∀ x ∈ (after ++ c :: s).head?, x.isDigit = false := by
      intro x hx
      cases after with
      | nil =>
        cases hx
        exact hdigit
      | cons a after =>
        cases hx
        exact isDigit_of_isGap (hafter x (by simp))
    have hnot : ¬ (digits.isEmpty || decide (255 < natural digits)) = true := by
      simpa [hne] using hle
    simp only [takeByte?, hfirst, Number.Literal.takeDigits_of_digits hdigits hend,
      Text.dropWhile_run hafter hgap]
    rw [if_neg hnot]

theorem exists_component {s rest : List Char} {n : Nat} (h : takeByte? s = some (n, rest)) :
    ∃ t, Component t n ∧ s = t ++ rest := by
  simp only [takeByte?] at h
  split at h
  · cases h
  · rename_i hn
    cases h
    simp only [Bool.or_eq_true, List.isEmpty_iff, decide_eq_true_eq, not_or] at hn
    let digits := takeDigits (s.dropWhile isGap)
    refine ⟨s.takeWhile isGap ++ digits.1 ++ digits.2.takeWhile isGap,
      .mk (fun _ => List.mem_takeWhile_imp) (fun _ => Number.Literal.isDigit_of_mem_takeDigits)
        hn.1 (Nat.le_of_not_lt hn.2) (fun _ => List.mem_takeWhile_imp), ?_⟩
    rw [List.append_assoc, List.append_assoc, List.takeWhile_append_dropWhile,
      Number.Literal.takeDigits_append, List.takeWhile_append_dropWhile]

theorem expect?_eq_some_iff {c : Char} {s rest : List Char} :
    expect? c s = some rest ↔ s = c :: rest := by
  cases s with
  | nil => simp [expect?]
  | cons d s =>
    by_cases hd : d = c
    · simp [expect?, hd]
    · simp [expect?, hd]

/-- A gap and three components with what stands around them. -/
theorem ofComponents?_append {gap r g b : List Char} {x y z : Nat}
    (hgap : ∀ c ∈ gap, isGap c = true) (hr : Component r x) (hg : Component g y)
    (hb : Component b z) :
    ofComponents? (gap ++ '(' :: (r ++ ',' :: (g ++ ',' :: (b ++ [')'])))) =
      some (parts 255.0 x y z) := by
  have hopen := Text.dropWhile_run hgap (c := '(') (by decide)
  have hcomma : ∀ {t : List Char} {n : Nat}, Component t n → ∀ s,
      takeByte? (t ++ ',' :: s) = some (n, ',' :: s) :=
    fun h => takeByte?_append h (by decide) (by decide)
  have hclose := takeByte?_append hb (c := ')') (by decide) (by decide) []
  simp [ofComponents?, hopen, hcomma hr, hcomma hg, hclose, expect?, ofBytes_eq]

theorem ofComponents?_eq_some {s : List Char} {c : Color} (h : ofComponents? s = some c) :
    Written ("rgb".toList ++ s) c := by
  simp only [ofComponents?, Option.bind_eq_bind, Option.bind_eq_some_iff] at h
  obtain ⟨t, hopen, ⟨x, t₁⟩, hr, t₂, hcomma, ⟨y, t₃⟩, hg, t₄, hcomma', ⟨z, t₅⟩, hb, t₆, hclose,
    h⟩ := h
  split at h
  · rename_i hempty
    cases h
    rw [expect?_eq_some_iff] at hopen hcomma hcomma' hclose
    obtain ⟨r, hred, rfl⟩ := exists_component hr
    obtain ⟨g, hgreen, rfl⟩ := exists_component hg
    obtain ⟨b, hblue, rfl⟩ := exists_component hb
    simp only at hcomma hcomma' hclose
    obtain rfl := List.isEmpty_iff.1 hempty
    have hs : s = s.takeWhile isGap ++ '(' :: (r ++ ',' :: (g ++ ',' :: (b ++ [')']))) := by
      rw [← hclose, ← hcomma', ← hcomma, ← hopen, List.takeWhile_append_dropWhile]
    rw [hs, ofBytes_eq]
    exact .function (fun _ => List.mem_takeWhile_imp) hred hgreen hblue
  · cases h

/-! ## Names -/

/-- The names with a colour in different spelling are different in any case. -/
theorem table_unique : ∀ entry ∈ table, ∀ other ∈ table,
    entry.1.toList.map Char.toLower = other.1.toList.map Char.toLower → entry = other := by
  decide +kernel

theorem clearNames_unique : ∀ entry ∈ table, ∀ word ∈ clearNames,
    entry.1.toList.map Char.toLower ≠ word.toList.map Char.toLower := by
  decide +kernel

theorem named?_of_clear {name : List Char} {word : String} (hword : word ∈ clearNames)
    (hname : equalsIgnoringCase name word.toList = true) : named? name = some clear := by
  rw [named?, if_pos (List.any_eq_true.2 ⟨word, hword, hname⟩)]

theorem named?_of_table {name : List Char} {entry : String × Nat × Nat × Nat}
    (hentry : entry ∈ table) (hname : equalsIgnoringCase name entry.1.toList = true) :
    named? name = some (parts 255.0 entry.2.1 entry.2.2.1 entry.2.2.2) := by
  rw [equalsIgnoringCase, beq_iff_eq] at hname
  have hclear : ¬ clearNames.any (equalsIgnoringCase name ·.toList) = true := by
    rw [List.any_eq_true]
    rintro ⟨word, hword, h⟩
    rw [equalsIgnoringCase, beq_iff_eq, hname] at h
    exact clearNames_unique entry hentry word hword h
  have hfind : (table.find? fun other => equalsIgnoringCase name other.1.toList) = some entry := by
    cases h : table.find? fun other => equalsIgnoringCase name other.1.toList with
    | none =>
      rw [List.find?_eq_none] at h
      exact absurd (by rw [equalsIgnoringCase, hname]; simp) (h entry hentry)
    | some other =>
      have hother := List.find?_some h
      simp only [equalsIgnoringCase, beq_iff_eq, hname] at hother
      rw [table_unique entry hentry other (List.mem_of_find?_eq_some h) hother]
  rw [named?, if_neg hclear, hfind, ← ofBytes_eq]
  rfl

theorem named?_eq_some {name : List Char} {c : Color} (h : named? name = some c) :
    Written name c := by
  unfold named? at h
  split at h
  · rename_i hclear
    cases h
    obtain ⟨word, hword, hname⟩ := List.any_eq_true.1 hclear
    exact .clear hword hname
  · obtain ⟨⟨word, x, y, z⟩, hentry, rfl⟩ := Option.map_eq_some_iff.1 h
    have hname := List.find?_some hentry
    simp only [ofBytes_eq]
    exact .named (List.mem_of_find?_eq_some hentry) hname

/-! ## Colours -/

theorem ofTrimmed?_rgb (s : List Char) : ofTrimmed? ("rgb".toList ++ s) = ofComponents? s := rfl

/-- No name begins like the other ways to write a colour. -/
theorem ofTrimmed?_of_name {name : List Char} {word : String}
    (hword : word ∈ clearNames ++ table.map (·.1))
    (hname : equalsIgnoringCase name word.toList = true) : ofTrimmed? name = named? name := by
  have hstart : ∀ word ∈ clearNames ++ table.map (·.1),
      ∀ start ∈ ["#".toList, "rgb".toList], ¬ start <+: word.toList.map Char.toLower := by
    decide +kernel
  rw [equalsIgnoringCase, beq_iff_eq] at hname
  unfold ofTrimmed?
  split
  · exact absurd (hname ▸ ⟨_, rfl⟩) (hstart word hword "#".toList (by simp))
  · exact absurd (hname ▸ ⟨_, rfl⟩) (hstart word hword "rgb".toList (by simp))
  · rfl

theorem ofTrimmed?_eq_some_iff {s : List Char} {c : Color} :
    ofTrimmed? s = some c ↔ Written s c := by
  constructor
  · intro h
    unfold ofTrimmed? at h
    split at h
    · exact ofHex?_eq_some h
    · exact ofComponents?_eq_some h
    · exact named?_eq_some h
  · intro h
    cases h with
    | fifteenths hr hg hb =>
      have hdigits := hexDigits?_eq_some_iff.2 (.cons hr (.cons hg (.cons hb .nil)))
      simp only [ofTrimmed?, ofHex?, hdigits, ofChannels_fifteen]
    | hexadecimal hr hr' hg hg' hb hb' =>
      have hdigits := hexDigits?_eq_some_iff.2
        (.cons hr (.cons hr' (.cons hg (.cons hg' (.cons hb (.cons hb' .nil))))))
      simp only [ofTrimmed?, ofHex?, hdigits, ofBytes_eq]
    | function hgap hr hg hb => rw [ofTrimmed?_rgb, ofComponents?_append hgap hr hg hb]
    | named hword hname =>
      rw [ofTrimmed?_of_name (List.mem_append_right _ (List.mem_map_of_mem hword)) hname,
        named?_of_table hword hname]
    | clear hword hname =>
      rw [ofTrimmed?_of_name (List.mem_append_left _ hword) hname]
      exact named?_of_clear hword hname

/-- A text is a colour if it is written as one, blanks around it aside. Every other text fails, with
the whole text in the error. -/
theorem parse_ok_iff_written (s : List Char) :
    (∀ c, parse s = .ok c ↔ Written (trim s) c) ∧
      ∀ e, parse s = .error e ↔
        (∀ c, ¬ Written (trim s) c) ∧ e = .invalidColor (String.ofList s) := by
  simp only [← ofTrimmed?_eq_some_iff, parse_eq]
  cases ofTrimmed? (trim s) with
  | some c => simp
  | none => simp [eq_comm]

end IconCode.Color

import IconCode.Path.Data

/-!
# The grammar of path data

A text is path data if it is blank up to its first letter and every letter is known, stands before
a list of numbers, and takes as many of them as there are, one group after the other. If it is not,
then the leftmost part that is at fault decides what the error is.

* `Split.segments_eq`: a text is divided in one way only.
* `Segment.read_ok_iff`, `Segment.read_error_iff`: what is right and wrong with a segment.
* `parse_ok_iff_accepted`: which texts are path data, and the error of every other text.
-/

namespace IconCode.Path

open Text

/-! ## Letters -/

/-- How many numbers belong to a letter at a time, if the letter is known. -/
def arity? (c : Char) : Option Nat :=
  if c ∈ ['M', 'm', 'L', 'l', 'T', 't'] then some 2
  else if c ∈ ['H', 'h', 'V', 'v'] then some 1
  else if c ∈ ['Q', 'q', 'S', 's'] then some 4
  else if c ∈ ['C', 'c'] then some 6
  else if c ∈ ['A', 'a'] then some 7
  else if c ∈ ['Z', 'z'] then some 0
  else none

/-- What holds of the ASCII characters and of all others holds of every character. -/
theorem forall_char {P : Char → Prop} (hascii : ∀ n < 128, P (Char.ofNat n))
    (hother : ∀ c : Char, 128 ≤ c.toNat → P c) (c : Char) : P c := by
  by_cases h : 128 ≤ c.toNat
  · exact hother c h
  · rw [← Char.ofNat_toNat c]
    exact hascii c.toNat (by omega)

theorem not_le_z {c : Char} (h : 128 ≤ c.toNat) : ¬ c ≤ 'z' := by
  intro hz
  have hle : c.toNat ≤ 122 := UInt32.le_iff_toNat_le.1 hz
  omega

theorem toUpper_eq_self {c : Char} (h : 128 ≤ c.toNat) : c.toUpper = c := by
  have hnot : ¬ ('a'.val ≤ c.val ∧ c.val ≤ 'z'.val) := fun hletter => not_le_z h hletter.2
  exact dif_neg hnot

theorem arity?_eq_none {c : Char} (h : 128 ≤ c.toNat) : arity? c = none := by
  have hne : ∀ d : Char, d.toNat < 128 → c ≠ d := by
    rintro d hd rfl
    omega
  simp [arity?, hne]

theorem ofLetter?_eq_none {c : Char} (h : 128 ≤ c.toNat) : Verb.ofLetter? c = none := by
  rw [Verb.ofLetter?, toUpper_eq_self h]
  split <;> first | rfl | exact absurd h (by decide)

theorem arity?_eq_map (c : Char) : arity? c = (Verb.ofLetter? c).map Verb.arity := by
  have hascii : ∀ n < 128,
      arity? (Char.ofNat n) = (Verb.ofLetter? (Char.ofNat n)).map Verb.arity := by
    decide +kernel
  refine forall_char (P := fun c => arity? c = (Verb.ofLetter? c).map Verb.arity) hascii ?_ c
  intro c h
  rw [arity?_eq_none h, ofLetter?_eq_none h]
  rfl

/-! ## Splits -/

def Segment.text (s : Segment) : List Char := s.letter :: s.raw

/-- A text is what stands before its first letter, and segments. -/
structure Split (data lead : List Char) (segs : List Segment) : Prop where
  text_eq : data = lead ++ segs.flatMap Segment.text
  lead_free : ∀ c ∈ lead, isLetter c = false
  letters : ∀ s ∈ segs, isLetter s.letter = true
  raw_free : ∀ s ∈ segs, ∀ c ∈ s.raw, isLetter c = false

theorem split_segments (data : List Char) : Split data (segments data).1 (segments data).2 := by
  induction data with
  | nil => constructor <;> simp [segments]
  | cons c s ih =>
    obtain ⟨htext, hlead, hletters, hraw⟩ := ih
    simp only [segments]
    split
    · rename_i hc
      refine ⟨?_, by simp, ?_, ?_⟩
      · simpa [Segment.text] using htext
      · simpa [hc] using hletters
      · simpa using ⟨hlead, hraw⟩
    · rename_i hc
      refine ⟨by simpa using htext, ?_, hletters, hraw⟩
      simpa [hc] using hlead

theorem segments_flatMap_text {segs : List Segment} (hl : ∀ s ∈ segs, isLetter s.letter = true)
    (hr : ∀ s ∈ segs, ∀ c ∈ s.raw, isLetter c = false) :
    segments (segs.flatMap Segment.text) = ([], segs) := by
  induction segs with
  | nil => rfl
  | cons s segs ih =>
    have hrest := ih (fun t ht => hl t (.tail _ ht)) fun t ht => hr t (.tail _ ht)
    have hraw := segments_append (t := segs.flatMap Segment.text) (hr s (.head _))
    rw [hrest, List.append_nil] at hraw
    simp only [List.flatMap_cons, Segment.text, List.cons_append, segments, hraw, hl s (.head _),
      if_true]

theorem Split.segments_eq {data lead : List Char} {segs : List Segment} (h : Split data lead segs) :
    segments data = (lead, segs) := by
  rw [h.text_eq, segments_append h.lead_free, segments_flatMap_text h.letters h.raw_free,
    List.append_nil]

/-! ## Groups of arguments -/

theorem groups_go_length_iff {α : Type} {n : Nat} (hn : 0 < n) {fuel : Nat} {xs : List α}
    (h : xs.length ≤ fuel) : (∀ g ∈ groups.go n fuel xs, g.length = n) ↔ n ∣ xs.length := by
  induction fuel generalizing xs with
  | zero =>
    rw [Nat.le_zero.1 h]
    simp [groups.go]
  | succ fuel ih =>
    cases xs with
    | nil => simp [groups.go]
    | cons x xs =>
      have hdrop : ((x :: xs).drop n).length ≤ fuel := by
        rw [List.length_drop]
        omega
      rw [groups.go, List.forall_mem_cons, ih hdrop, List.length_take, List.length_drop]
      -- Of a list that is shorter than a group the only group is short.
      by_cases hle : n ≤ (x :: xs).length
      · rw [Nat.min_eq_left hle, Nat.dvd_sub_iff_left hle (Nat.dvd_refl n)]
        simp
      · have hdvd : ¬ n ∣ (x :: xs).length := fun hd => hle (Nat.le_of_dvd (by simp) hd)
        have hmin : min n (x :: xs).length ≠ n := by omega
        simp only [hmin, hdvd, false_and]

theorem isSome_mapM_iff {α β : Type} (f : α → Option β) (xs : List α) :
    (xs.mapM f).isSome = true ↔ ∀ x ∈ xs, (f x).isSome = true := by
  induction xs with
  | nil => simp
  | cons x xs ih =>
    rw [List.forall_mem_cons, ← ih, List.mapM_cons]
    cases f x with
    | none => simp
    | some y => cases xs.mapM f <;> simp

theorem arity_pos {v : Verb} (h : v ≠ .close) : 0 < v.arity := by
  cases v <;> first | decide | exact absurd rfl h

theorem instructions?_eq_mapM {α : Type} [Scalar α] {v : Verb} (h : v ≠ .close) (xs : List α) :
    instructions? v xs = (groups v.arity xs).mapM (Instruction.ofArguments? v) := by
  cases v <;> first | rfl | exact absurd rfl h

/-- The instructions of a letter are there if its arguments come in whole groups. -/
theorem isSome_instructions?_iff {α : Type} [Scalar α] (v : Verb) (xs : List α) :
    (instructions? v xs).isSome = true ↔ v.arity ∣ xs.length := by
  by_cases h : v = .close
  · subst h
    rw [instructions?, Verb.arity, Nat.zero_dvd, List.length_eq_zero_iff]
    cases xs <;> simp
  · rw [instructions?_eq_mapM h, isSome_mapM_iff]
    simp only [Instruction.ofArguments?_isSome_iff]
    exact groups_go_length_iff (arity_pos h) (Nat.le_refl _)

/-! ## Segments -/

namespace Segment

/-- Whether a letter is known and comes with whole groups of numbers. -/
def Accepted (s : Segment) : Prop :=
  ∃ n xs, arity? s.letter = some n ∧ Number.numbers s.raw = .ok xs ∧ n ∣ xs.length

/-- What is wrong with a segment. Of an unknown letter the numbers do not matter, and of malformed
numbers not how many there are. -/
inductive Faulty (s : Segment) : ReadError → Prop where
  | unknownCommand (ha : arity? s.letter = none) :
      Faulty s
        (.invalidPath (String.singleton s.letter) (String.ofList (trim s.raw)) .unknownCommand)
  | invalidNumber {n : Nat} {text : String} (ha : arity? s.letter = some n)
      (hx : Number.numbers s.raw = .error (.invalidNumber text)) : Faulty s (.invalidNumber text)
  | wrongArgumentCount {n : Nat} {xs : List Float} (ha : arity? s.letter = some n)
      (hx : Number.numbers s.raw = .ok xs) (hn : ¬ n ∣ xs.length) :
      Faulty s (.invalidPath (String.singleton s.letter) (String.ofList (trim s.raw))
        (.wrongArgumentCount n xs.length))

end Segment

theorem take_error {s : List Char} {e : ReadError} (h : Number.take s = .error e) :
    ∃ text, e = .invalidNumber text := by
  unfold Number.take at h
  split at h
  · cases h
    exact ⟨_, rfl⟩
  · split at h
    · cases h
      exact ⟨_, rfl⟩
    · cases h

theorem numbers_error {s : List Char} {e : ReadError} (h : Number.numbers s = .error e) :
    ∃ text, e = .invalidNumber text := by
  fun_induction Number.numbers s with
  | case1 => cases h
  | case2 s hs e' ht =>
    cases h
    exact take_error ht
  | case3 s hs x rest ht _ e' hr ih =>
    cases h
    exact ih hr
  | case4 => cases h

namespace Segment

/-- What is read of a segment: the instructions of its letter with its numbers. -/
theorem read_eq_ok_iff {s : Segment} {is : List (Reference × Instruction Float)} :
    s.read = .ok is ↔
      ∃ v xs js, Verb.ofLetter? s.letter = some v ∧ Number.numbers s.raw = .ok xs ∧
        instructions? v xs = some js ∧ js.map (s.reference, ·) = is := by
  unfold read
  cases Verb.ofLetter? s.letter with
  | none => simp
  | some v =>
    cases Number.numbers s.raw with
    | error e => simp
    | ok xs =>
      cases hi : instructions? v xs with
      | none => simp [hi]
      | some js => simp [hi]

theorem readAll_cons_eq_ok_iff {s : Segment} {segs : List Segment}
    {is : List (Reference × Instruction Float)} :
    readAll (s :: segs) = .ok is ↔
      ∃ js ks, s.read = .ok js ∧ readAll segs = .ok ks ∧ js ++ ks = is := by
  rw [readAll]
  cases s.read with
  | error e => simp
  | ok js => cases readAll segs <;> simp

theorem read_ok_iff (s : Segment) : (∃ is, s.read = .ok is) ↔ s.Accepted := by
  unfold read Accepted
  rw [arity?_eq_map]
  cases Verb.ofLetter? s.letter with
  | none => simp
  | some v =>
    cases Number.numbers s.raw with
    | error e => simp
    | ok xs =>
      have hiff := isSome_instructions?_iff v xs
      cases hi : instructions? v xs with
      | none => simpa [hi] using hiff
      | some is => simpa [hi] using hiff

theorem faulty_of_read {s : Segment} {e : ReadError} (h : s.read = .error e) : s.Faulty e := by
  have harity := arity?_eq_map s.letter
  unfold read at h
  split at h
  · rename_i hv
    rw [hv] at harity
    cases h
    exact .unknownCommand harity
  · rename_i v hv
    rw [hv] at harity
    split at h
    · rename_i e' hx
      obtain ⟨text, rfl⟩ := numbers_error hx
      cases h
      exact .invalidNumber harity hx
    · rename_i xs hx
      split at h
      · rename_i hi
        cases h
        refine .wrongArgumentCount harity hx ?_
        rw [← isSome_instructions?_iff v xs, hi]
        simp
      · cases h

theorem Faulty.read {s : Segment} {e : ReadError} (h : s.Faulty e) : s.read = .error e := by
  cases h with
  | unknownCommand ha =>
    rw [arity?_eq_map, Option.map_eq_none_iff] at ha
    simp only [Segment.read, ha, fault]
  | invalidNumber ha hx =>
    rw [arity?_eq_map, Option.map_eq_some_iff] at ha
    obtain ⟨v, hv, rfl⟩ := ha
    simp only [Segment.read, hv, hx]
  | wrongArgumentCount ha hx hn =>
    rw [arity?_eq_map, Option.map_eq_some_iff] at ha
    obtain ⟨v, hv, rfl⟩ := ha
    rename_i xs
    have hi : instructions? v xs = none := by
      rw [← Option.not_isSome_iff_eq_none, isSome_instructions?_iff]
      exact hn
    simp only [Segment.read, hv, hx, hi, fault]

theorem read_error_iff (s : Segment) (e : ReadError) : s.read = .error e ↔ s.Faulty e :=
  ⟨faulty_of_read, Faulty.read⟩

theorem readAll_ok_iff (segs : List Segment) :
    (∃ is, readAll segs = .ok is) ↔ ∀ s ∈ segs, s.Accepted := by
  induction segs with
  | nil => simp [readAll]
  | cons s segs ih =>
    rw [List.forall_mem_cons, ← ih, ← read_ok_iff, readAll]
    cases s.read with
    | error e => simp
    | ok is => cases readAll segs <;> simp

/-- Segments are read up to the first one at fault. -/
theorem readAll_error_iff (segs : List Segment) (e : ReadError) :
    readAll segs = .error e ↔
      ∃ before s after, segs = before ++ s :: after ∧ (∀ t ∈ before, t.Accepted) ∧ s.Faulty e := by
  induction segs with
  | nil => simp [readAll]
  | cons s segs ih =>
    have hok := read_ok_iff s
    have herror := read_error_iff s
    rw [readAll]
    constructor
    · intro h
      cases hr : s.read with
      | error e' =>
        rw [hr] at h
        cases h
        exact ⟨[], s, segs, rfl, by simp, (herror e).1 hr⟩
      | ok is =>
        have hs : s.Accepted := hok.1 ⟨is, hr⟩
        rw [hr] at h
        cases hrest : readAll segs with
        | ok js => simp [hrest] at h
        | error e' =>
          simp only [hrest, Except.error.injEq] at h
          subst h
          obtain ⟨before, t, after, rfl, hb, ht⟩ := ih.1 hrest
          exact ⟨s :: before, t, after, rfl, List.forall_mem_cons.2 ⟨hs, hb⟩, ht⟩
    · rintro ⟨before, t, after, heq, hb, ht⟩
      cases before with
      | nil =>
        cases heq
        rw [ht.read]
      | cons u before =>
        cases heq
        obtain ⟨hs, hb⟩ := List.forall_mem_cons.1 hb
        obtain ⟨is, his⟩ := hok.2 hs
        rw [his, ih.2 ⟨before, t, after, rfl, hb, ht⟩]

end Segment

/-! ## Path data -/

/-- Whether a text is path data. -/
def Accepted (data : List Char) : Prop :=
  ∃ lead segs, Split data lead segs ∧ (∀ c ∈ lead, isBlank c = true) ∧ ∀ s ∈ segs, s.Accepted

/-- What is wrong with a text: it comes to more than blanks before its first letter, or else it is
the first segment at fault. -/
inductive Faulty (data : List Char) : ReadError → Prop where
  | missingCommand {lead : List Char} {segs : List Segment} (h : Split data lead segs)
      (hl : ∃ c ∈ lead, isBlank c = false) :
      Faulty data (.invalidPath "" (String.ofList (trim lead)) .missingCommand)
  | segment {lead : List Char} {before after : List Segment} {s : Segment} {e : ReadError}
      (h : Split data lead (before ++ s :: after)) (hl : ∀ c ∈ lead, isBlank c = true)
      (hb : ∀ t ∈ before, t.Accepted) (hs : s.Faulty e) : Faulty data e

section Divided

variable {data lead : List Char} {segs : List Segment} (h : Split data lead segs)

include h

theorem instructions_of_blank (hl : ∀ c ∈ lead, isBlank c = true) :
    instructions data = Segment.readAll segs := by
  simp [instructions, h.segments_eq, trim_eq_nil hl]

theorem instructions_of_not_blank (hl : ∃ c ∈ lead, isBlank c = false) :
    instructions data = .error (.invalidPath "" (String.ofList (trim lead)) .missingCommand) := by
  have hne : trim lead ≠ [] := by
    rw [Ne, trim_eq_nil_iff]
    simpa using hl
  simp [instructions, h.segments_eq, hne]

end Divided

theorem blank_or_not (s : List Char) :
    (∀ c ∈ s, isBlank c = true) ∨ ∃ c ∈ s, isBlank c = false := by
  by_cases h : ∀ c ∈ s, isBlank c = true
  · exact .inl h
  · exact .inr (by simpa using h)

theorem instructions_ok_iff (data : List Char) :
    (∃ is, instructions data = .ok is) ↔ Accepted data := by
  have hsplit := split_segments data
  constructor
  · intro h
    rcases blank_or_not (segments data).1 with hl | hl
    · rw [instructions_of_blank hsplit hl, Segment.readAll_ok_iff] at h
      exact ⟨_, _, hsplit, hl, h⟩
    · rw [instructions_of_not_blank hsplit hl] at h
      simp at h
  · rintro ⟨lead, segs, h, hl, hs⟩
    rw [instructions_of_blank h hl, Segment.readAll_ok_iff]
    exact hs

theorem instructions_error_iff (data : List Char) (e : ReadError) :
    instructions data = .error e ↔ Faulty data e := by
  have hsplit := split_segments data
  constructor
  · intro h
    rcases blank_or_not (segments data).1 with hl | hl
    · rw [instructions_of_blank hsplit hl, Segment.readAll_error_iff] at h
      obtain ⟨before, s, after, heq, hb, hs⟩ := h
      rw [heq] at hsplit
      exact .segment hsplit hl hb hs
    · rw [instructions_of_not_blank hsplit hl] at h
      cases h
      exact .missingCommand hsplit hl
  · intro h
    cases h with
    | missingCommand h hl => exact instructions_of_not_blank h hl
    | segment h hl hb hs =>
      rw [instructions_of_blank h hl, Segment.readAll_error_iff]
      exact ⟨_, _, _, rfl, hb, hs⟩

/-! ## Commands -/

theorem parse_ok_iff (data : List Char) :
    (∃ cs, parse data = .ok cs) ↔ ∃ is, instructions data = .ok is := by
  rw [parse]
  cases instructions data <;> simp [Except.map]

theorem parse_error_iff (data : List Char) (e : ReadError) :
    parse data = .error e ↔ instructions data = .error e := by
  rw [parse]
  cases instructions data <;> simp [Except.map]

/-- A text is read if and only if it is path data. The error of every other text says what is wrong
with it. -/
theorem parse_ok_iff_accepted (data : List Char) :
    ((∃ cs, parse data = .ok cs) ↔ Accepted data) ∧
      ∀ e, parse data = .error e ↔ Faulty data e := by
  refine ⟨?_, ?_⟩
  · rw [parse_ok_iff, instructions_ok_iff]
  · intro e
    rw [parse_error_iff, instructions_error_iff]

end IconCode.Path

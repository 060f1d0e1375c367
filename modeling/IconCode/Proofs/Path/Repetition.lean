import IconCode.Proofs.Outcome
import IconCode.Proofs.Path.Concatenation

/-!
# Repeated letters

A letter stands before all the groups of arguments that follow it. It may be written again before
any later group: this divides the text into other segments and the numbers into other lists, but it
leaves the groups as they are, and so the instructions and all that depends on the pen between them.

* `groups_append`: groups of a list that is put together at the end of a group.
* `instructions?_append`: so it is with the instructions of one letter.
* `instructions_repeated`: the instructions of a text in which a letter is written again.
* `parse_repeated`: what such a text draws.
-/

namespace IconCode.Path

/-! ## Groups of arguments -/

theorem groups_go_congr {α : Type} {n : Nat} (hn : 0 < n) {fuel fuel' : Nat} {xs : List α}
    (h : xs.length ≤ fuel) (h' : xs.length ≤ fuel') :
    groups.go n fuel xs = groups.go n fuel' xs := by
  induction fuel generalizing fuel' xs with
  | zero =>
    rw [List.length_eq_zero_iff.1 (Nat.le_zero.1 h)]
    cases fuel' <;> rfl
  | succ fuel ih =>
    cases xs with
    | nil => cases fuel' <;> rfl
    | cons x xs =>
      cases fuel' with
      | zero => simp at h'
      | succ fuel' =>
        have hdrop : ((x :: xs).drop n).length ≤ xs.length := by
          rw [List.length_drop, List.length_cons]
          omega
        rw [List.length_cons] at h h'
        rw [groups.go, groups.go, ih (by omega) (by omega : _ ≤ fuel')]

theorem groups_of_ne_nil {α : Type} {n : Nat} (hn : 0 < n) {xs : List α} (h : xs ≠ []) :
    groups n xs = xs.take n :: groups n (xs.drop n) := by
  obtain ⟨x, xs, rfl⟩ := List.exists_cons_of_ne_nil h
  have hdrop : ((x :: xs).drop n).length ≤ xs.length := by
    rw [List.length_drop, List.length_cons]
    omega
  change _ :: groups.go n xs.length _ = _ :: groups.go n _ _
  rw [groups_go_congr hn hdrop (Nat.le_refl _)]

/-- A complete group in front of a list is the first of its groups. -/
theorem groups_group_append {α : Type} {n : Nat} (hn : 0 < n) {group : List α}
    (h : group.length = n) (xs : List α) : groups n (group ++ xs) = group :: groups n xs := by
  have hne : group ++ xs ≠ [] := by
    intro hnil
    rw [List.append_eq_nil_iff] at hnil
    rw [← h, hnil.1] at hn
    exact absurd hn (by simp)
  rw [groups_of_ne_nil hn hne, List.take_left' h, List.drop_left' h]

/-- Where a group ends, a list may be taken apart without any change to its groups. -/
theorem groups_append {α : Type} {n : Nat} (hn : 0 < n) {xs : List α} (h : n ∣ xs.length)
    (ys : List α) : groups n (xs ++ ys) = groups n xs ++ groups n ys := by
  obtain ⟨k, hk⟩ := h
  induction k generalizing xs with
  | zero =>
    rw [Nat.mul_zero, List.length_eq_zero_iff] at hk
    subst hk
    rfl
  | succ k ih =>
    rw [Nat.mul_succ] at hk
    have htake : (xs.take n).length = n := by
      rw [List.length_take]
      omega
    have hdrop : (xs.drop n).length = n * k := by
      rw [List.length_drop]
      omega
    have hxs : xs = xs.take n ++ xs.drop n := (List.take_append_drop n xs).symm
    rw [hxs, List.append_assoc, groups_group_append hn htake, groups_group_append hn htake,
      ih hdrop, List.cons_append]

/-- The groups of two argument lists stand for the instructions of both, one after the other. -/
theorem instructions?_append {α : Type} [Scalar α] {v : Verb} (hv : v ≠ .close) {xs : List α}
    (h : v.arity ∣ xs.length) (ys : List α) :
    instructions? v (xs ++ ys) = (do
      let is ← instructions? v xs
      let js ← instructions? v ys
      pure (is ++ js)) := by
  rw [instructions?_eq_mapM hv, instructions?_eq_mapM hv, instructions?_eq_mapM hv,
    groups_append (arity_pos hv) h, List.mapM_append]

/-! ## Segments -/

theorem isLetter_of_arity? {c : Char} {n : Nat} (h : arity? c = some n) : isLetter c = true := by
  have hascii : ∀ n < 128, (arity? (Char.ofNat n)).isSome = true →
      isLetter (Char.ofNat n) = true := by
    decide +kernel
  refine forall_char (P := fun c => (arity? c).isSome = true → isLetter c = true) hascii ?_ c ?_
  · intro c hc hsome
    rw [arity?_eq_none hc] at hsome
    cases hsome
  · rw [h]
    rfl

/-- A segment alone is path data of its instructions. -/
theorem instructions_segment {letter : Char} (hletter : isLetter letter = true) {raw : List Char}
    (hraw : ∀ c ∈ raw, isLetter c = false) :
    instructions (letter :: raw) = (Segment.mk letter raw).read := by
  have hsplit : Split (letter :: raw) [] [⟨letter, raw⟩] := by
    constructor <;> simp [Segment.text, hletter]
    exact hraw
  rw [instructions_of_blank hsplit (by simp), Segment.readAll]
  cases (Segment.mk letter raw).read with
  | error e => rfl
  | ok is => simp [Segment.readAll]

/-- What is read of a known letter with well-formed numbers is decided by their groups alone. -/
theorem Segment.read_eq_ok_iff_of_numbers {s : Segment} {v : Verb}
    (hv : Verb.ofLetter? s.letter = some v) {xs : List Float} (hx : Number.numbers s.raw = .ok xs)
    {is : List (Reference × Instruction Float)} :
    s.read = .ok is ↔ (instructions? v xs).map (List.map (s.reference, ·)) = some is := by
  rw [Segment.read_eq_ok_iff, Option.map_eq_some_iff]
  constructor
  · rintro ⟨v', xs', js, hv', hx', hjs, rfl⟩
    rw [hv] at hv'
    rw [hx] at hx'
    cases hv'
    cases hx'
    exact ⟨js, hjs, rfl⟩
  · rintro ⟨js, hjs, rfl⟩
    exact ⟨v, xs, js, hv, hx, hjs, rfl⟩

/-! ## Instructions -/

theorem instructions_append_eq_ok_iff {front back : List Char}
    (h : back = [] ∨ BeginsWithLetter back) {is : List (Reference × Instruction Float)} :
    instructions (front ++ back) = .ok is ↔
      ∃ js ks, instructions front = .ok js ∧ instructions back = .ok ks ∧ js ++ ks = is := by
  rcases h with rfl | h
  · have hnil : instructions [] = .ok [] := rfl
    simp [hnil]
  · rw [instructions_append front h]
    cases instructions front with
    | error e => simp [bind, Except.bind]
    | ok js =>
      cases instructions back with
      | error e => simp [bind, Except.bind]
      | ok ks => simp [bind, Except.bind, pure, Except.pure]

section Repeated

variable {letter : Char} {k : Nat} (hk : arity? letter = some k) (hpos : 0 < k)
  {first second : List Char} (hfirst : ∀ c ∈ first, isLetter c = false)
  (hsecond : ∀ c ∈ second, isLetter c = false) {xs ys : List Float}
  (hx : Number.numbers first = .ok xs) (hy : Number.numbers second = .ok ys)
  (hxy : Number.numbers (first ++ second) = .ok (xs ++ ys)) (hdvd : k ∣ xs.length)

include hk hpos hx hy hxy hdvd

/-- One letter before all arguments reads the same as two letters before their parts. -/
theorem read_repeated {is : List (Reference × Instruction Float)} :
    (Segment.mk letter (first ++ second)).read = .ok is ↔
      ∃ js ks, (Segment.mk letter first).read = .ok js ∧ (Segment.mk letter second).read = .ok ks ∧
        js ++ ks = is := by
  rw [arity?_eq_map, Option.map_eq_some_iff] at hk
  obtain ⟨v, hv, rfl⟩ := hk
  have hclose : v ≠ .close := by
    rintro rfl
    exact Nat.lt_irrefl 0 hpos
  rw [Segment.read_eq_ok_iff_of_numbers hv hxy, instructions?_append hclose hdvd]
  simp only [Segment.read_eq_ok_iff_of_numbers (s := ⟨letter, first⟩) hv hx,
    Segment.read_eq_ok_iff_of_numbers (s := ⟨letter, second⟩) hv hy]
  cases instructions? v xs with
  | none => simp
  | some js => cases instructions? v ys <;> simp [Segment.reference]

include hfirst hsecond

theorem instructions_repeated {is : List (Reference × Instruction Float)} :
    instructions (letter :: (first ++ second)) = .ok is ↔
      instructions (letter :: first ++ letter :: second) = .ok is := by
  have hletter := isLetter_of_arity? hk
  have hboth : ∀ c ∈ first ++ second, isLetter c = false :=
    List.forall_mem_append.2 ⟨hfirst, hsecond⟩
  have hbegins : BeginsWithLetter (letter :: second) := ⟨letter, second, rfl, hletter⟩
  rw [instructions_append_eq_ok_iff (.inr hbegins), instructions_segment hletter hboth,
    instructions_segment hletter hfirst, instructions_segment hletter hsecond]
  exact read_repeated hk hpos hx hy hxy hdvd

end Repeated

/-! ## Commands -/

/-- In path data a letter may be written again before a part of its arguments, if the part begins
with a group and reads as the same numbers when it stands alone: with and without the letter the
text draws the same, if it draws anything. -/
theorem parse_repeated {letter : Char} {k : Nat} (hk : arity? letter = some k) (hpos : 0 < k)
    {first second : List Char} (hfirst : ∀ c ∈ first, isLetter c = false)
    (hsecond : ∀ c ∈ second, isLetter c = false) {xs ys : List Float}
    (hx : Number.numbers first = .ok xs) (hy : Number.numbers second = .ok ys)
    (hxy : Number.numbers (first ++ second) = .ok (xs ++ ys)) (hdvd : k ∣ xs.length)
    (front : List Char) {back : List Char} (hback : back = [] ∨ BeginsWithLetter back)
    (cs : List (Command Float)) :
    parse (front ++ (letter :: (first ++ second) ++ back)) = .ok cs ↔
      parse (front ++ (letter :: first ++ letter :: second ++ back)) = .ok cs := by
  have hletter := isLetter_of_arity? hk
  have hsame : ∀ is, instructions (letter :: (first ++ second)) = .ok is ↔
      instructions (letter :: first ++ letter :: second) = .ok is :=
    fun _ => instructions_repeated hk hpos hfirst hsecond hx hy hxy hdvd
  have honce : BeginsWithLetter (letter :: (first ++ second) ++ back) := ⟨letter, _, rfl, hletter⟩
  have htwice : BeginsWithLetter (letter :: first ++ letter :: second ++ back) :=
    ⟨letter, _, rfl, hletter⟩
  have hall : ∀ is, instructions (front ++ (letter :: (first ++ second) ++ back)) = .ok is ↔
      instructions (front ++ (letter :: first ++ letter :: second ++ back)) = .ok is := by
    intro is
    simp only [instructions_append_eq_ok_iff (.inr honce),
      instructions_append_eq_ok_iff (.inr htwice), instructions_append_eq_ok_iff hback, hsame]
  simp only [parse_eq_ok_iff, hall]

/-- The arguments of a relative smooth curve. -/
def curveArguments : List Char := " 1 2 3.5.5".toList

/-- The arguments of a second one, which begin by their sign. -/
def nextArguments : List Char := "-1e1 2,3 4".toList

theorem parse_repeated_smooth :
    ∃ cs, parse ("M1 2q3 4 5 6".toList ++
        ('s' :: (curveArguments ++ nextArguments) ++ "z".toList)) = .ok cs ∧
      parse ("M1 2q3 4 5 6".toList ++
        ('s' :: curveArguments ++ 's' :: nextArguments ++ "z".toList)) = .ok cs := by
  have hparse : (parse ("M1 2q3 4 5 6".toList ++
      ('s' :: (curveArguments ++ nextArguments) ++ "z".toList))).toOption.isSome = true := by
    decide +kernel
  obtain ⟨cs, hcs⟩ := (isSome_toOption_iff _).1 hparse
  have hx : Number.numbers curveArguments = .ok [1.0, 2.0, 3.5, 0.5] :=
    toOption_eq_some_iff.1 (by decide +kernel)
  have hy : Number.numbers nextArguments = .ok [-10.0, 2.0, 3.0, 4.0] :=
    toOption_eq_some_iff.1 (by decide +kernel)
  have hxy : Number.numbers (curveArguments ++ nextArguments) =
      .ok ([1.0, 2.0, 3.5, 0.5] ++ [-10.0, 2.0, 3.0, 4.0]) :=
    toOption_eq_some_iff.1 (by decide +kernel)
  have hfirst : curveArguments.all (!isLetter ·) = true := by decide
  have hsecond : nextArguments.all (!isLetter ·) = true := by decide
  have hback : BeginsWithLetter "z".toList := ⟨'z', [], rfl, rfl⟩
  refine ⟨cs, hcs, ?_⟩
  exact (parse_repeated (k := 4) rfl (by decide) (by simpa using hfirst) (by simpa using hsecond)
    hx hy hxy (by decide) _ (.inr hback) cs).1 hcs

end IconCode.Path

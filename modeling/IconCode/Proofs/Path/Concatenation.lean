import IconCode.Proofs.Path.Grammar

/-!
# Path data behind path data

Path data is read from left to right. What stands behind it, from a letter on, adds commands or an
error of its own and changes nothing of what was read before. Only the pen is handed on, and a move
to an absolute point puts a new pen in its place.

* `instructions_append`: the instructions of both parts in their order, or the first error.
* `Pen.drawAll_eq_of_moveTo`: a move to an absolute point makes all pens equal.
* `parse_append`: what both parts draw together.
-/

namespace IconCode

/-! ## Pens -/

namespace Pen

variable {α : Type} [Scalar α]

/-- A move overwrites all that a pen remembers. -/
theorem apply_moveTo (pen pen' : Pen α) (p : Point α) :
    pen.apply .absolute (.moveTo p) = pen'.apply .absolute (.moveTo p) := rfl

theorem drawAll_eq_of_moveTo (pen pen' : Pen α) (p : Point α)
    (is : List (Reference × Instruction α)) :
    pen.drawAll ((.absolute, .moveTo p) :: is) = pen'.drawAll ((.absolute, .moveTo p) :: is) := by
  simp only [drawAll]
  rw [apply_moveTo pen pen' p]

end Pen

namespace Path

/-! ## Segments -/

/-- Whether a letter is the first character. -/
def BeginsWithLetter (data : List Char) : Prop :=
  ∃ c rest, data = c :: rest ∧ isLetter c = true

theorem BeginsWithLetter.segments_fst {data : List Char} (h : BeginsWithLetter data) :
    (segments data).1 = [] := by
  obtain ⟨c, rest, rfl, hc⟩ := h
  simp [segments, hc]

/-- A letter ends the segment before it, so neither part is divided in another way. -/
theorem segments_append_letter (front : List Char) {back : List Char} (h : BeginsWithLetter back) :
    segments (front ++ back) =
      ((segments front).1, (segments front).2 ++ (segments back).2) := by
  induction front with
  | nil =>
    rw [List.nil_append, segments, List.nil_append, ← h.segments_fst]
  | cons c front ih =>
    rw [List.cons_append, segments, segments, ih]
    by_cases hc : isLetter c = true
    · simp [hc]
    · simp [hc]

theorem Segment.readAll_append (before after : List Segment) :
    readAll (before ++ after) = (do
      let is ← readAll before
      let js ← readAll after
      pure (is ++ js)) := by
  induction before with
  | nil =>
    rw [List.nil_append]
    cases readAll after <;> rfl
  | cons s before ih =>
    rw [List.cons_append, readAll, readAll, ih]
    cases s.read with
    | error e => rfl
    | ok is =>
      cases readAll before with
      | error e => rfl
      | ok js =>
        cases readAll after with
        | error e => rfl
        | ok ks =>
          change Except.ok (is ++ (js ++ ks)) = Except.ok ((is ++ js) ++ ks)
          rw [List.append_assoc]

/-! ## Instructions -/

theorem BeginsWithLetter.instructions_eq {data : List Char} (h : BeginsWithLetter data) :
    instructions data = Segment.readAll (segments data).2 := by
  have hsplit := split_segments data
  have hblank : ∀ c ∈ (segments data).1, Text.isBlank c = true := by
    rw [h.segments_fst]
    simp
  exact instructions_of_blank hsplit hblank

theorem instructions_append (front : List Char) {back : List Char} (h : BeginsWithLetter back) :
    instructions (front ++ back) = (do
      let is ← instructions front
      let js ← instructions back
      pure (is ++ js)) := by
  have hdivide := segments_append_letter front h
  have hfront := split_segments front
  have hboth := split_segments (front ++ back)
  rw [hdivide] at hboth
  rcases blank_or_not (segments front).1 with hl | hl
  · rw [instructions_of_blank hboth hl, instructions_of_blank hfront hl, h.instructions_eq]
    exact Segment.readAll_append _ _
  · rw [instructions_of_not_blank hboth hl, instructions_of_not_blank hfront hl]
    rfl

/-! ## Moves to absolute points -/

/-- Whether a text begins with the letter of a move to absolute points and this letter has
arguments, be they well-formed or not. -/
def BeginsWithMove (data : List Char) : Prop :=
  ∃ raw segs, Split data [] (⟨'M', raw⟩ :: segs) ∧ Number.numbers raw ≠ .ok []

theorem eq_moveTo_of_ofArguments? {α : Type} [Scalar α] {xs : List α} {i : Instruction α}
    (h : Instruction.ofArguments? .moveTo xs = some i) : ∃ p, i = .moveTo p := by
  rcases xs with _ | ⟨x, _ | ⟨y, _ | ⟨z, rest⟩⟩⟩
  · cases h
  · cases h
  · cases h
    exact ⟨_, rfl⟩
  · cases h

/-- All instructions of a move's letter are moves, and there is one if there are arguments. -/
theorem moveTo_of_instructions? {α : Type} [Scalar α] {xs : List α} {is : List (Instruction α)}
    (h : instructions? .moveTo xs = some is) (hx : xs ≠ []) : ∃ p js, is = .moveTo p :: js := by
  cases xs with
  | nil => exact absurd rfl hx
  | cons x xs =>
    have hgroups : groups 2 (x :: xs) =
        (x :: xs).take 2 :: groups.go 2 xs.length ((x :: xs).drop 2) := rfl
    rw [instructions?_eq_mapM (by decide), Verb.arity, hgroups, List.mapM_cons,
      Option.bind_eq_bind, Option.bind_eq_some_iff] at h
    obtain ⟨i, hi, h⟩ := h
    obtain ⟨p, rfl⟩ := eq_moveTo_of_ofArguments? hi
    obtain ⟨js, -, h⟩ := Option.bind_eq_some_iff.1 h
    cases h
    exact ⟨p, js, rfl⟩

theorem BeginsWithMove.instructions_eq {data : List Char} (h : BeginsWithMove data)
    {is : List (Reference × Instruction Float)} (hi : instructions data = .ok is) :
    ∃ p js, is = (.absolute, .moveTo p) :: js := by
  obtain ⟨raw, segs, hsplit, hraw⟩ := h
  have hverb : Verb.ofLetter? 'M' = some .moveTo := rfl
  have hreference : (Segment.mk 'M' raw).reference = .absolute := rfl
  rw [instructions_of_blank hsplit (by simp), Segment.readAll] at hi
  cases hx : Number.numbers raw with
  | error e => simp [Segment.read, hverb, hx] at hi
  | ok xs =>
    have hne : xs ≠ [] := by
      rintro rfl
      exact hraw hx
    cases hm : instructions? .moveTo xs with
    | none => simp [Segment.read, hverb, hx, hm] at hi
    | some ms =>
      obtain ⟨p, ns, rfl⟩ := moveTo_of_instructions? hm hne
      simp only [Segment.read, hverb, hx, hm, hreference, List.map_cons] at hi
      cases hrest : Segment.readAll segs with
      | error e => simp [hrest] at hi
      | ok js =>
        simp only [hrest, List.cons_append, Except.ok.injEq] at hi
        exact ⟨p, _, hi.symm⟩

/-! ## Commands -/

theorem parse_eq_ok_iff {data : List Char} {cs : List (Command Float)} :
    parse data = .ok cs ↔
      ∃ is, instructions data = .ok is ∧ (Pen.atOrigin.drawAll is).1 = cs := by
  rw [parse]
  cases instructions data <;> simp [Except.map]

/-- Path data whose first part is at fault is at fault in the same way. If the first part is path
data and the second part is not, the second part's error counts. Otherwise the commands of the
first part come first, and a second part that begins with a move to an absolute point draws what it
draws alone. -/
theorem parse_append {front back : List Char} (h : BeginsWithLetter back) :
    (∀ e, parse front = .error e → parse (front ++ back) = .error e) ∧
      ∀ cs, parse front = .ok cs →
        (∀ e, parse back = .error e → parse (front ++ back) = .error e) ∧
        (∀ all, parse (front ++ back) = .ok all → cs <+: all) ∧
        (BeginsWithMove back →
          ∀ ds, parse back = .ok ds → parse (front ++ back) = .ok (cs ++ ds)) := by
  have hboth := instructions_append front h
  refine ⟨?_, ?_⟩
  · intro e he
    rw [parse_error_iff] at he ⊢
    rw [hboth, he]
    rfl
  · intro cs hcs
    obtain ⟨is, his, rfl⟩ := parse_eq_ok_iff.1 hcs
    refine ⟨?_, ?_, ?_⟩
    · intro e he
      rw [parse_error_iff] at he ⊢
      rw [hboth, his, he]
      rfl
    · intro all hall
      obtain ⟨ks, hks, rfl⟩ := parse_eq_ok_iff.1 hall
      rw [hboth, his] at hks
      cases hback : instructions back with
      | error e =>
        rw [hback] at hks
        cases hks
      | ok js =>
        rw [hback] at hks
        cases hks
        rw [Pen.drawAll_append]
        exact List.prefix_append _ _
    · intro hmove ds hds
      obtain ⟨js, hjs, rfl⟩ := parse_eq_ok_iff.1 hds
      obtain ⟨p, ks, rfl⟩ := hmove.instructions_eq hjs
      have hall : instructions (front ++ back) = .ok (is ++ (.absolute, .moveTo p) :: ks) := by
        rw [hboth, his, hjs]
        rfl
      refine parse_eq_ok_iff.2 ⟨_, hall, ?_⟩
      rw [Pen.drawAll_append, Pen.drawAll_eq_of_moveTo _ Pen.atOrigin]

/-- A curve that a smooth one could continue, and a subpath that a relative line could count
from. -/
def curvedData : List Char := "m 1 2 q 3 4 5 6 ".toList

/-- A new subpath that goes on with a smooth curve, closes and starts again from there. -/
def movedData : List Char := "M 7 8 T 9 9 z l 1 1".toList

theorem beginsWithMove_movedData : BeginsWithMove movedData := by
  have hsplit := split_segments movedData
  refine ⟨" 7 8 ".toList, _, hsplit, ?_⟩
  intro h
  have hlength : (Number.numbers " 7 8 ".toList).toOption.map List.length = some 2 := by
    decide +kernel
  rw [h] at hlength
  cases hlength

theorem parse_append_curved_moved :
    BeginsWithLetter movedData ∧ BeginsWithMove movedData ∧
      ∃ cs ds, parse curvedData = .ok cs ∧ parse movedData = .ok ds ∧
        parse (curvedData ++ movedData) = .ok (cs ++ ds) := by
  have hletter : BeginsWithLetter movedData := ⟨'M', _, rfl, rfl⟩
  have hcurved : (parse curvedData).toOption.isSome = true := by decide +kernel
  have hmoved : (parse movedData).toOption.isSome = true := by decide +kernel
  cases hcs : parse curvedData with
  | error e => simp [hcs, Except.toOption] at hcurved
  | ok cs =>
    cases hds : parse movedData with
    | error e => simp [hds, Except.toOption] at hmoved
    | ok ds =>
      have hboth := ((parse_append hletter).2 cs hcs).2.2 beginsWithMove_movedData ds hds
      exact ⟨hletter, beginsWithMove_movedData, cs, ds, rfl, rfl, hboth⟩

end Path

end IconCode

import IconCode.Proofs.Geometry.Double
import IconCode.Proofs.Outcome
import IconCode.Proofs.Path.Concatenation

/-!
# Relative coordinates

A small letter means what its capital means with the place of the pen added to the coordinates of
its arguments. Adding the origin to these once more, as the capital does, changes nothing: where a
pen can get to there is no negative zero, and so there is none among the sums.

* `ofArguments?_translate`: which arguments of a letter are coordinates.
* `Pen.Settled.apply`: no pen gets to a negative zero.
* `Pen.Settled.call?_absolute`: one letter with one group of arguments.
* `Pen.callAll?_absolutes`: letters one after the other.
* `relative_eq_absolute`: letters with their arguments, and path data as a whole.
-/

namespace IconCode

/-! ## Coordinates among arguments -/

inductive Axis where
  | x
  | y

/-- A coordinate of a point. -/
def Point.along {α : Type} (p : Point α) : Axis → α
  | .x => p.x
  | .y => p.y

namespace Verb

/-- The arguments of a letter that are coordinates, and along which axis. -/
def axes : Verb → List (Option Axis)
  | .moveTo | .lineTo | .smoothQuadratic => [some .x, some .y]
  | .horizontal => [some .x]
  | .vertical => [some .y]
  | .quadratic | .smoothCubic => [some .x, some .y, some .x, some .y]
  | .cubic => [some .x, some .y, some .x, some .y, some .x, some .y]
  | .arc => [none, none, none, none, none, some .x, some .y]
  | .close => []

/-- The arguments with a point added to those that are coordinates. -/
def translate {α : Type} [Scalar α] (v : Verb) (p : Point α) (xs : List α) : List α :=
  List.zipWith (fun axis x => axis.elim x (x + p.along ·)) v.axes xs

end Verb

/-- The instruction of translated arguments is the instruction with an offset. -/
theorem Instruction.ofArguments?_translate {α : Type} [Scalar α] {v : Verb} (p : Point α)
    {xs : List α} (h : xs.length = v.arity) :
    ofArguments? v (v.translate p xs) = (ofArguments? v xs).map (·.offset p) := by
  rcases xs with _ | ⟨a, _ | ⟨b, _ | ⟨c, _ | ⟨d, _ | ⟨e, _ | ⟨f, _ | ⟨g, _ | ⟨i, r⟩⟩⟩⟩⟩⟩⟩⟩ <;>
    cases v <;> first | rfl | simp [Verb.arity] at h

/-! ## Pens without a negative zero -/

/-- Whether zero can be added to both coordinates of a point. -/
def Point.Settled (p : Point Float) : Prop := Double.Settled p.x ∧ Double.Settled p.y

theorem Point.settled_zero : (Point.zero : Point Float).Settled :=
  ⟨Double.settled_zero, Double.settled_zero⟩

theorem Point.Settled.add (p : Point Float) {q : Point Float} (h : q.Settled) :
    (p + q).Settled :=
  ⟨h.1.add p.x, h.2.add p.y⟩

theorem Point.Settled.add_zero {p : Point Float} (h : p.Settled) : p + .zero = p := by
  obtain ⟨hx, hy⟩ := h
  obtain ⟨x, y⟩ := p
  exact congrArg₂ Point.mk hx hy

/-- An offset by the origin changes nothing after an offset by a settled point. -/
theorem Instruction.offset_zero {p : Point Float} (h : p.Settled) (i : Instruction Float) :
    (i.offset p).offset .zero = i.offset p := by
  have hpoint : ∀ q : Point Float, q + p + .zero = q + p := fun q => (h.add q).add_zero
  cases i with
  | horizontal x => exact congrArg Instruction.horizontal (h.1.add x)
  | vertical y => exact congrArg Instruction.vertical (h.2.add y)
  | close => rfl
  | _ => simp only [offset, hpoint]

namespace Pen

/-- Whether a pen and the beginning of its subpath are at settled points. -/
structure Settled (pen : Pen Float) : Prop where
  point : pen.point.Settled
  start : pen.start.Settled

theorem settled_atOrigin : (atOrigin : Pen Float).Settled :=
  ⟨Point.settled_zero, Point.settled_zero⟩

theorem Settled.base {pen : Pen Float} (h : pen.Settled) (reference : Reference) :
    (pen.base reference).Settled := by
  cases reference with
  | absolute => exact Point.settled_zero
  | relative => exact h.point

/-- Every instruction leaves the pen at a sum with a settled point, or at one that was settled
before. -/
theorem Settled.apply {pen : Pen Float} (h : pen.Settled) (reference : Reference)
    (i : Instruction Float) : (pen.apply reference i).2.Settled := by
  have hb := h.base reference
  cases i with
  | moveTo p => exact ⟨hb.add p, hb.add p⟩
  | horizontal x => exact ⟨⟨hb.1.add x, h.point.2⟩, h.start⟩
  | vertical y => exact ⟨⟨h.point.1, hb.2.add y⟩, h.start⟩
  | lineTo p => exact ⟨hb.add p, h.start⟩
  | quadratic c p => exact ⟨hb.add p, h.start⟩
  | smoothQuadratic p => exact ⟨hb.add p, h.start⟩
  | cubic c d p => exact ⟨hb.add p, h.start⟩
  | smoothCubic d p => exact ⟨hb.add p, h.start⟩
  | arc radius rotation large sweep p => exact ⟨hb.add p, h.start⟩
  | close => exact ⟨h.start, h.start⟩

theorem Settled.drawAll {pen : Pen Float} (h : pen.Settled)
    (is : List (Reference × Instruction Float)) : (pen.drawAll is).2.Settled := by
  induction is generalizing pen with
  | nil => exact h
  | cons i is ih => exact ih (h.apply i.1 i.2)

/-- Whether a pen can be left by some instructions. -/
def Reachable (pen : Pen Float) : Prop := ∃ is, (atOrigin.drawAll is).2 = pen

theorem Reachable.settled {pen : Pen Float} (h : pen.Reachable) : pen.Settled := by
  obtain ⟨is, rfl⟩ := h
  exact settled_atOrigin.drawAll is

/-- A relative instruction does what the absolute one does whose coordinates are offset. -/
theorem Settled.apply_relative {pen : Pen Float} (h : pen.Settled) (i : Instruction Float) :
    pen.apply .relative i = pen.apply .absolute (i.offset pen.point) := by
  change pen.draw (i.offset pen.point) = pen.draw ((i.offset pen.point).offset .zero)
  rw [Instruction.offset_zero h.point]

end Pen

/-! ## Letters with arguments -/

/-- A letter with one group of its arguments. -/
structure Call where
  letter : Char
  arguments : List Float
deriving DecidableEq

namespace Call

def reference (c : Call) : Reference := if c.letter.isLower then .relative else .absolute

/-- The instruction of a known letter with as many arguments as it takes. -/
def read? (c : Call) : Option (Reference × Instruction Float) :=
  ((Verb.ofLetter? c.letter).bind (Instruction.ofArguments? · c.arguments)).map (c.reference, ·)

/-- The call in absolute terms, for a pen at the given point: of a small letter the capital with the
point added to the coordinates, and every other call as it is. -/
def absolute (p : Point Float) (c : Call) : Call :=
  match Verb.ofLetter? c.letter with
  | some v => if c.letter.isLower then ⟨c.letter.toUpper, v.translate p c.arguments⟩ else c
  | none => c

theorem read?_eq_some_iff {c : Call} {i : Reference × Instruction Float} :
    c.read? = some i ↔
      ∃ v, Verb.ofLetter? c.letter = some v ∧ Instruction.ofArguments? v c.arguments = some i.2 ∧
        i.1 = c.reference := by
  obtain ⟨reference, i⟩ := i
  simp only [read?, Option.map_eq_some_iff, Option.bind_eq_some_iff, Prod.mk.injEq]
  constructor
  · rintro ⟨_, ⟨v, hv, hi⟩, rfl, rfl⟩
    exact ⟨v, hv, hi, rfl⟩
  · rintro ⟨v, hv, hi, rfl⟩
    exact ⟨i, ⟨v, hv, hi⟩, rfl, rfl⟩

end Call

namespace Pen

/-- What a call draws, and the pen after it. -/
def call? (pen : Pen Float) (c : Call) : Option (List (Command Float) × Pen Float) :=
  c.read?.map fun i => pen.apply i.1 i.2

/-- What calls draw one after the other, and the pen after them. -/
def callAll? (pen : Pen Float) (cs : List Call) : Option (List (Command Float) × Pen Float) :=
  (cs.mapM Call.read?).map pen.drawAll

end Pen

/-- The letters of relative coordinates. -/
def relativeLetters : List Char := ['m', 'l', 'h', 'v', 'q', 't', 'c', 's', 'a']

theorem isLower_of_mem : ∀ c ∈ relativeLetters, c.isLower = true := by
  simp [relativeLetters]

/-- A capital asks for what the small letter asks for, and is no small letter. -/
theorem ofLetter?_toUpper (c : Char) :
    Verb.ofLetter? c.toUpper = Verb.ofLetter? c ∧ c.toUpper.isLower = false := by
  have hascii : ∀ n < 128,
      Verb.ofLetter? (Char.ofNat n).toUpper = Verb.ofLetter? (Char.ofNat n) ∧
        (Char.ofNat n).toUpper.isLower = false := by
    decide +kernel
  refine Path.forall_char (P := fun c =>
    Verb.ofLetter? c.toUpper = Verb.ofLetter? c ∧ c.toUpper.isLower = false) hascii ?_ c
  intro c h
  rw [Path.toUpper_eq_self h]
  refine ⟨rfl, ?_⟩
  simp only [Char.isLower, Bool.and_eq_false_iff, decide_eq_false_iff_not]
  exact .inr (Path.not_le_z h)

namespace Call

theorem isLower_absolute {c : Call} {i : Reference × Instruction Float} (h : c.read? = some i)
    (p : Point Float) : (c.absolute p).letter.isLower = false := by
  obtain ⟨v, hv, -, -⟩ := read?_eq_some_iff.1 h
  by_cases hlower : c.letter.isLower = true
  · simp only [absolute, hv, hlower, if_true]
    exact (ofLetter?_toUpper c.letter).2
  · simp [absolute, hv, hlower]

/-- The call in absolute terms asks for the instruction that is offset if the call is relative. -/
theorem read?_absolute {c : Call} {i : Reference × Instruction Float} (h : c.read? = some i)
    (p : Point Float) :
    (c.absolute p).read? =
      some (.absolute, match i.1 with
        | .absolute => i.2
        | .relative => i.2.offset p) := by
  obtain ⟨reference, i⟩ := i
  obtain ⟨v, hv, hi, hreference⟩ := read?_eq_some_iff.1 h
  by_cases hlower : c.letter.isLower = true
  · obtain ⟨hupper, hcapital⟩ := ofLetter?_toUpper c.letter
    have hlength : c.arguments.length = v.arity :=
      (Instruction.ofArguments?_isSome_iff v c.arguments).1 (by simp [hi])
    have hrelative : reference = .relative := by simpa [Call.reference, hlower] using hreference
    subst hrelative
    have habsolute : c.absolute p = ⟨c.letter.toUpper, v.translate p c.arguments⟩ := by
      simp [absolute, hv, hlower]
    rw [habsolute]
    refine read?_eq_some_iff.2 ⟨v, hupper.trans hv, ?_, ?_⟩
    · rw [Instruction.ofArguments?_translate p hlength, hi]
      rfl
    · simp [Call.reference, hcapital]
  · have hsame : c.absolute p = c := by simp [absolute, hv, hlower]
    have habsolute : reference = .absolute := by simpa [Call.reference, hlower] using hreference
    subst habsolute
    rw [hsame, h]

end Call

namespace Pen

/-- A call does what it does in absolute terms. -/
theorem Settled.call?_absolute {pen : Pen Float} (h : pen.Settled) {c : Call}
    {i : Reference × Instruction Float} (hc : c.read? = some i) :
    pen.call? (c.absolute pen.point) = pen.call? c := by
  obtain ⟨reference, i⟩ := i
  rw [call?, call?, Call.read?_absolute hc, hc]
  cases reference with
  | absolute => rfl
  | relative =>
    rw [Option.map_some, Option.map_some, h.apply_relative]

/-- The calls in absolute terms, each for the pen that those before it leave. -/
def absolutes (pen : Pen Float) : List Call → List Call
  | [] => []
  | c :: cs =>
    c.absolute pen.point ::
      match pen.call? c with
      | some step => step.2.absolutes cs
      | none => cs

theorem callAll?_cons {pen : Pen Float} {c : Call} {step : List (Command Float) × Pen Float}
    (h : pen.call? c = some step) (cs : List Call) :
    pen.callAll? (c :: cs) =
      (step.2.callAll? cs).map fun after => (step.1 ++ after.1, after.2) := by
  obtain ⟨i, hi, rfl⟩ := Option.map_eq_some_iff.1 h
  rw [callAll?, callAll?, List.mapM_cons, hi]
  cases cs.mapM Call.read? <;> rfl

theorem callAll?_absolutes {pen : Pen Float} (h : pen.Settled) {cs : List Call}
    {is : List (Reference × Instruction Float)} (hcs : cs.mapM Call.read? = some is) :
    pen.callAll? (pen.absolutes cs) = pen.callAll? cs ∧
      ∀ c ∈ pen.absolutes cs, c.letter.isLower = false := by
  induction cs generalizing pen is with
  | nil => exact ⟨rfl, by simp [absolutes]⟩
  | cons c cs ih =>
    rw [List.mapM_cons, Option.bind_eq_bind, Option.bind_eq_some_iff] at hcs
    obtain ⟨i, hi, hcs⟩ := hcs
    obtain ⟨js, hjs, -⟩ := Option.bind_eq_some_iff.1 hcs
    have hcall : pen.call? c = some (pen.apply i.1 i.2) := by rw [call?, hi, Option.map_some]
    have habsolute := h.call?_absolute hi
    obtain ⟨hdrawn, hcapital⟩ := ih (h.apply i.1 i.2) hjs
    simp only [absolutes, hcall, List.forall_mem_cons]
    refine ⟨?_, Call.isLower_absolute hi pen.point, hcapital⟩
    rw [callAll?_cons hcall, callAll?_cons (habsolute.trans hcall), hdrawn]

end Pen

/-! ## Path data -/

namespace Path

/-- The calls of a segment: of a closing letter one without arguments, and of every other letter one
for each group. -/
def Segment.calls (s : Segment) : List Call :=
  match Verb.ofLetter? s.letter, Number.numbers s.raw with
  | some .close, .ok _ => [⟨s.letter, []⟩]
  | some v, .ok xs => (groups v.arity xs).map (⟨s.letter, ·⟩)
  | _, _ => []

/-- The calls of path data, in their order. -/
def calls (data : List Char) : List Call := (segments data).2.flatMap Segment.calls

theorem mapM_read?_groups {letter : Char} {v : Verb} (hv : Verb.ofLetter? letter = some v)
    {gs : List (List Float)} {is : List (Instruction Float)}
    (h : gs.mapM (Instruction.ofArguments? v) = some is) :
    (gs.map (Call.mk letter)).mapM Call.read? =
      some (is.map ((Call.mk letter []).reference, ·)) := by
  induction gs generalizing is with
  | nil =>
    cases h
    rfl
  | cons g gs ih =>
    rw [List.mapM_cons, Option.bind_eq_bind, Option.bind_eq_some_iff] at h
    obtain ⟨i, hi, h⟩ := h
    obtain ⟨js, hjs, h⟩ := Option.bind_eq_some_iff.1 h
    cases h
    have hread : (Call.mk letter g).read? = some ((Call.mk letter []).reference, i) :=
      Call.read?_eq_some_iff.2 ⟨v, hv, hi, rfl⟩
    rw [List.map_cons, List.mapM_cons, hread, ih hjs]
    rfl

theorem Segment.calls_eq_of_close {s : Segment} (hv : Verb.ofLetter? s.letter = some .close)
    {xs : List Float} (hx : Number.numbers s.raw = .ok xs) : s.calls = [⟨s.letter, []⟩] := by
  rw [Segment.calls, hv, hx]

theorem Segment.calls_eq_groups {s : Segment} {v : Verb} (hv : Verb.ofLetter? s.letter = some v)
    (hclose : v ≠ .close) {xs : List Float} (hx : Number.numbers s.raw = .ok xs) :
    s.calls = (groups v.arity xs).map (Call.mk s.letter) := by
  rw [Segment.calls, hv, hx]
  cases v <;> first | rfl | exact absurd rfl hclose

theorem Segment.mapM_calls {s : Segment} {is : List (Reference × Instruction Float)}
    (h : s.read = .ok is) : s.calls.mapM Call.read? = some is := by
  obtain ⟨v, xs, js, hv, hx, hjs, rfl⟩ := Segment.read_eq_ok_iff.1 h
  by_cases hclose : v = .close
  · subst hclose
    have hread : (Call.mk s.letter []).read? = some (s.reference, .close) :=
      Call.read?_eq_some_iff.2 ⟨.close, hv, rfl, rfl⟩
    rw [Segment.calls_eq_of_close hv hx, List.mapM_cons, hread]
    rw [instructions?] at hjs
    split at hjs
    · cases hjs
      rfl
    · cases hjs
  · rw [instructions?_eq_mapM hclose] at hjs
    rw [Segment.calls_eq_groups hv hclose hx, mapM_read?_groups hv hjs]
    rfl

theorem mapM_calls_of_readAll {segs : List Segment} {is : List (Reference × Instruction Float)}
    (h : Segment.readAll segs = .ok is) :
    (segs.flatMap Segment.calls).mapM Call.read? = some is := by
  induction segs generalizing is with
  | nil =>
    cases h
    rfl
  | cons s segs ih =>
    obtain ⟨js, ks, hjs, hks, rfl⟩ := Segment.readAll_cons_eq_ok_iff.1 h
    rw [List.flatMap_cons, List.mapM_append, Segment.mapM_calls hjs, ih hks]
    rfl

theorem mapM_calls {data : List Char} {is : List (Reference × Instruction Float)}
    (h : instructions data = .ok is) : (calls data).mapM Call.read? = some is := by
  rcases blank_or_not (segments data).1 with hl | hl
  · rw [instructions_of_blank (split_segments data) hl] at h
    exact mapM_calls_of_readAll h
  · rw [instructions_of_not_blank (split_segments data) hl] at h
    cases h

/-- Path data draws what its calls draw. -/
theorem callAll?_calls {data : List Char} {cs : List (Command Float)} (h : parse data = .ok cs) :
    ∃ pen, Pen.atOrigin.callAll? (calls data) = some (cs, pen) := by
  obtain ⟨is, his, rfl⟩ := parse_eq_ok_iff.1 h
  exact ⟨(Pen.atOrigin.drawAll is).2, by rw [Pen.callAll?, mapM_calls his, Option.map_some]⟩

/-- Whether a text is path data that says in absolute terms what another text says. -/
structure IsAbsoluteOf (absolute data : List Char) : Prop where
  accepted : Accepted absolute
  calls_eq : calls absolute = Pen.atOrigin.absolutes (calls data)

/-- The small letter with its arguments does what the capital does whose coordinates have the place
of the pen added. So path data draws what its calls draw in absolute terms, and what every text
draws that writes these down. -/
theorem relative_eq_absolute :
    (∀ pen : Pen Float, pen.Reachable →
      ∀ letter ∈ relativeLetters, ∀ v, Verb.ofLetter? letter = some v →
        ∀ group : List Float, group.length = v.arity →
          ∃ step, pen.call? ⟨letter, group⟩ = some step ∧
            pen.call? ⟨letter.toUpper, v.translate pen.point group⟩ = some step) ∧
      ∀ data cs, parse data = .ok cs →
        (∃ pen, Pen.atOrigin.callAll? (calls data) = some (cs, pen) ∧
          Pen.atOrigin.callAll? (Pen.atOrigin.absolutes (calls data)) = some (cs, pen)) ∧
        (∀ c ∈ Pen.atOrigin.absolutes (calls data), c.letter.isLower = false) ∧
        ∀ absolute, IsAbsoluteOf absolute data → parse absolute = .ok cs := by
  refine ⟨?_, ?_⟩
  · intro pen hpen letter hletter v hv group hgroup
    have hlower := isLower_of_mem letter hletter
    have hsome := (Instruction.ofArguments?_isSome_iff v group).2 hgroup
    obtain ⟨i, hi⟩ := Option.isSome_iff_exists.1 hsome
    have hread : (Call.mk letter group).read? = some (.relative, i) := by
      refine Call.read?_eq_some_iff.2 ⟨v, hv, hi, ?_⟩
      simp [Call.reference, hlower]
    have habsolute : (Call.mk letter group).absolute pen.point =
        ⟨letter.toUpper, v.translate pen.point group⟩ := by
      simp [Call.absolute, hv, hlower]
    have hcall : pen.call? ⟨letter, group⟩ = some (pen.apply .relative i) := by
      rw [Pen.call?, hread, Option.map_some]
    refine ⟨_, hcall, ?_⟩
    rw [← habsolute, hpen.settled.call?_absolute hread, hcall]
  · intro data cs hdata
    obtain ⟨is, his, -⟩ := parse_eq_ok_iff.1 hdata
    obtain ⟨pen, hpen⟩ := callAll?_calls hdata
    obtain ⟨hdrawn, hcapital⟩ := Pen.callAll?_absolutes Pen.settled_atOrigin (mapM_calls his)
    refine ⟨⟨pen, hpen, hdrawn.trans hpen⟩, hcapital, ?_⟩
    intro absolute habsolute
    obtain ⟨js, hjs⟩ := (instructions_ok_iff absolute).2 habsolute.accepted
    have hds := parse_eq_ok_iff.2 ⟨js, hjs, rfl⟩
    obtain ⟨pen', hpen'⟩ := callAll?_calls hds
    rw [habsolute.calls_eq, hdrawn, hpen] at hpen'
    cases hpen'
    exact hds

/-- Every letter in relative terms, some with several groups. -/
def relativeData : List Char :=
  "m1 2q3 4 5 6t1 1c1 2 3 4 5 6s1 2 3 4a5 6 0 0 1 7 8h1v-1l2 2 3 3z".toList

/-- The same in absolute terms. -/
def absoluteData : List Char :=
  "M1 2Q4 6 6 8T7 9C8 11 10 13 12 15S13 17 15 19A5 6 0 0 1 22 27H23V26L25 28L28 31Z".toList

theorem relative_eq_absolute_letters :
    (∃ pen : Pen Float, pen.Reachable ∧ pen.point = ⟨1.0, 2.0⟩ ∧
      Pen.call? pen ⟨'s', [1.0, 2.0, 3.0, 4.0]⟩ = Pen.call? pen ⟨'S', [2.0, 4.0, 4.0, 6.0]⟩) ∧
      ∃ cs, parse relativeData = .ok cs ∧ IsAbsoluteOf absoluteData relativeData ∧
        parse absoluteData = .ok cs := by
  refine ⟨?_, ?_⟩
  · have hreachable : (Pen.moved .atOrigin ⟨1.0, 2.0⟩ : Pen Float).Reachable :=
      ⟨[(.absolute, .lineTo ⟨1.0, 2.0⟩)], by decide +kernel⟩
    have htranslate : Verb.translate .smoothCubic (⟨1.0, 2.0⟩ : Point Float) [1.0, 2.0, 3.0, 4.0] =
        [2.0, 4.0, 4.0, 6.0] := by decide +kernel
    obtain ⟨step, hsmall, hcapital⟩ := relative_eq_absolute.1 _ hreachable 's' (by decide)
      .smoothCubic rfl [1.0, 2.0, 3.0, 4.0] rfl
    refine ⟨_, hreachable, rfl, ?_⟩
    rw [hsmall, ← htranslate]
    exact hcapital.symm
  · have hread : (instructions absoluteData).toOption.isSome = true := by decide +kernel
    have habsolute : IsAbsoluteOf absoluteData relativeData :=
      ⟨(instructions_ok_iff _).1 ((isSome_toOption_iff _).1 hread), by decide +kernel⟩
    have hparse : (parse relativeData).toOption.isSome = true := by decide +kernel
    obtain ⟨cs, hcs⟩ := (isSome_toOption_iff _).1 hparse
    exact ⟨cs, hcs, habsolute, (relative_eq_absolute.2 _ cs hcs).2.2 _ habsolute⟩

end Path

end IconCode

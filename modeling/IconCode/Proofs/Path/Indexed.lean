import IconCode.Proofs.Path.Relative
import IconCode.Proofs.Path.Repetition
import IconCode.Reader.Shapes

/-!
# Reading by index

Path data can also be read by numbers: what follows a letter lies between two offsets in bytes, and
the arguments of a letter stand at fixed places of their group. Every such access is checked here.
None of them ever goes wrong, and so what is read is what is read by pattern.

* `cutAll_eq`: offsets of letters are always between two characters, in the right order.
* `exists_fetch_iff`: a letter's arguments are in range if there are as many as its arity says.
* `Segment.steps_spec`: the groups of a segment are as long as its letter needs them.
* `parseByIndex_eq`: path data and points read by index.
-/

namespace IconCode

namespace Path

open Text

/-- What goes wrong when something is read by index. -/
inductive Breach where
  | slice (start stop : Nat)
  | argument (index length : Nat)
  | letter (letter : Char)
deriving DecidableEq, Repr

/-! ## Slices -/

/-- The number of bytes of a text. -/
def byteLength (s : List Char) : Nat := (s.map Char.utf8Size).sum

@[simp] theorem byteLength_nil : byteLength [] = 0 := rfl

@[simp] theorem byteLength_cons (c : Char) (s : List Char) :
    byteLength (c :: s) = c.utf8Size + byteLength s := by
  simp [byteLength]

@[simp] theorem byteLength_append (s t : List Char) :
    byteLength (s ++ t) = byteLength s + byteLength t := by
  simp [byteLength]

/-- The text before and behind an offset, which has to be between two characters. -/
def cutAt? : List Char → Nat → Option (List Char × List Char)
  | s, 0 => some ([], s)
  | [], _ + 1 => none
  | c :: s, n + 1 =>
    if c.utf8Size ≤ n + 1 then
      (cutAt? s (n + 1 - c.utf8Size)).map fun p => (c :: p.1, p.2)
    else none

theorem cutAt?_append (s t : List Char) : cutAt? (s ++ t) (byteLength s) = some (s, t) := by
  induction s with
  | nil => cases t <;> rfl
  | cons c s ih =>
    have hpos := c.utf8Size_pos
    obtain ⟨n, hn⟩ : ∃ n, byteLength (c :: s) = n + 1 :=
      Nat.exists_eq_succ_of_ne_zero (by rw [byteLength_cons]; omega)
    have hrest : n + 1 - c.utf8Size = byteLength s := by
      rw [← hn, byteLength_cons]
      omega
    have hle : c.utf8Size ≤ n + 1 := by
      rw [← hn, byteLength_cons]
      omega
    rw [hn, List.cons_append, cutAt?, if_pos hle, hrest, ih]
    rfl

/-- The text between two offsets. -/
def slice (data : List Char) (start stop : Nat) : Except Breach (List Char) :=
  match (cutAt? data stop).bind (cutAt? ·.1 start) with
  | some (_, s) => .ok s
  | none => .error (.slice start stop)

theorem slice_append (before s after : List Char) :
    slice (before ++ s ++ after) (byteLength before) (byteLength (before ++ s)) = .ok s := by
  rw [slice, cutAt?_append, Option.bind_some, cutAt?_append]

/-! ## Letters by their offsets -/

/-- The characters of a text with the offsets at which they begin. -/
def charsFrom (i : Nat) : List Char → List (Nat × Char)
  | [] => []
  | c :: s => (i, c) :: charsFrom (i + c.utf8Size) s

/-- What has been cut off from a text, and the last letter with the offset behind it. -/
structure Cuts where
  lead : List Char := []
  segs : List Segment := []
  current : Option (Char × Nat) := none

namespace Cuts

/-- One more character of the text, with its offset. -/
def next (data : List Char) (cuts : Cuts) : Nat × Char → Except Breach Cuts
  | (i, c) =>
    if isLetter c then
      match cuts.current with
      | none => do
        let lead ← slice data 0 i
        pure { cuts with lead, current := some (c, i + c.utf8Size) }
      | some (letter, start) => do
        let raw ← slice data start i
        pure { cuts with segs := cuts.segs ++ [⟨letter, raw⟩], current := some (c, i + c.utf8Size) }
    else pure cuts

/-- The text before the first letter, and the segments. -/
def finish (data : List Char) (cuts : Cuts) : Except Breach (List Char × List Segment) :=
  match cuts.current with
  | none => pure (data, cuts.segs)
  | some (letter, start) => do
    let raw ← slice data start (byteLength data)
    pure (cuts.lead, cuts.segs ++ [⟨letter, raw⟩])

/-- What is cut off when this much of the text has been looked at. -/
inductive Follows (front : List Char) : Cuts → Prop where
  | lead (h : ∀ c ∈ front, isLetter c = false) : Follows front {}
  | segment {before inside lead : List Char} {segs : List Segment} {letter : Char}
      (hf : front = before ++ inside) (h : Split front lead (segs ++ [⟨letter, inside⟩])) :
      Follows front ⟨lead, segs, some (letter, byteLength before)⟩

end Cuts

/-- The segments of a text, cut off by the offsets of its letters. -/
def cutAll (data : List Char) : Except Breach (List Char × List Segment) := do
  let cuts ← (charsFrom 0 data).foldlM (Cuts.next data) {}
  cuts.finish data

theorem split_of_free {s : List Char} (h : ∀ c ∈ s, isLetter c = false) : Split s s [] :=
  ⟨by simp, h, by simp, by simp⟩

namespace Split

variable {front lead : List Char} {segs : List Segment} {c : Char}

theorem concat_letter (h : Split front lead segs) (hc : isLetter c = true) :
    Split (front ++ [c]) lead (segs ++ [⟨c, []⟩]) := by
  refine ⟨?_, h.lead_free, ?_, ?_⟩
  · rw [h.text_eq]
    simp [Segment.text]
  · simpa [or_imp, forall_and, hc] using h.letters
  · simpa [or_imp, forall_and] using h.raw_free

theorem concat_other {letter : Char} {inside : List Char}
    (h : Split front lead (segs ++ [⟨letter, inside⟩])) (hc : isLetter c = false) :
    Split (front ++ [c]) lead (segs ++ [⟨letter, inside ++ [c]⟩]) := by
  refine ⟨?_, h.lead_free, ?_, ?_⟩
  · rw [h.text_eq]
    simp [Segment.text]
  · simpa [or_imp, forall_and] using h.letters
  · have hraw := h.raw_free
    simp only [List.forall_mem_append, List.forall_mem_singleton] at hraw ⊢
    exact ⟨hraw.1, hraw.2, hc⟩

end Split

namespace Cuts

variable {front : List Char} {cuts : Cuts}

/-- Up to each letter there is a slice, whatever follows. -/
theorem Follows.next (h : Follows front cuts) (c : Char) (rest : List Char) :
    ∃ cuts', cuts.next (front ++ c :: rest) (byteLength front, c) = .ok cuts' ∧
      Follows (front ++ [c]) cuts' := by
  have hoffset : byteLength (front ++ [c]) = byteLength front + c.utf8Size := by simp
  have hnew : front ++ [c] = (front ++ [c]) ++ [] := by simp
  cases hc : isLetter c with
  | false =>
    refine ⟨cuts, by simp [Cuts.next, hc, pure, Except.pure], ?_⟩
    cases h with
    | lead h => exact .lead (by simpa [or_imp, forall_and, hc] using h)
    | @segment before inside lead segs letter hf h =>
      have hsame : front ++ [c] = before ++ (inside ++ [c]) := by rw [hf, List.append_assoc]
      exact .segment hsame (h.concat_other hc)
  | true =>
    cases h with
    | lead h =>
      have hslice := slice_append [] front (c :: rest)
      simp only [List.nil_append, byteLength_nil] at hslice
      refine ⟨⟨front, [], some (c, byteLength front + c.utf8Size)⟩, ?_, ?_⟩
      · simp [Cuts.next, hc, hslice, bind, Except.bind, pure, Except.pure]
      · rw [← hoffset]
        exact .segment hnew ((split_of_free h).concat_letter hc)
    | @segment before inside lead segs letter hf h =>
      have hslice := slice_append before inside (c :: rest)
      rw [← hf] at hslice
      refine ⟨⟨lead, segs ++ [⟨letter, inside⟩], some (c, byteLength front + c.utf8Size)⟩, ?_, ?_⟩
      · simp [Cuts.next, hc, hslice, bind, Except.bind, pure, Except.pure]
      · rw [← hoffset]
        exact .segment hnew (h.concat_letter hc)

theorem Follows.foldlM (h : Follows front cuts) (rest : List Char) :
    ∃ cuts', (charsFrom (byteLength front) rest).foldlM (Cuts.next (front ++ rest)) cuts =
      .ok cuts' ∧ Follows (front ++ rest) cuts' := by
  induction rest generalizing front cuts with
  | nil => exact ⟨cuts, rfl, by simpa using h⟩
  | cons c rest ih =>
    obtain ⟨cuts₁, hnext, h₁⟩ := h.next c rest
    obtain ⟨cuts₂, hrest, h₂⟩ := ih h₁
    have hoffset : byteLength (front ++ [c]) = byteLength front + c.utf8Size := by simp
    rw [List.append_assoc, List.singleton_append] at hrest h₂
    rw [hoffset] at hrest
    refine ⟨cuts₂, ?_, h₂⟩
    rw [charsFrom, List.foldlM_cons, hnext]
    exact hrest

theorem Follows.finish {data : List Char} (h : Follows data cuts) :
    cuts.finish data = .ok (segments data) := by
  cases h with
  | lead h => rw [(split_of_free h).segments_eq]; rfl
  | @segment before inside lead segs letter hf h =>
    have hslice := slice_append before inside []
    rw [List.append_nil, ← hf] at hslice
    simp only [Cuts.finish, hslice, h.segments_eq]
    rfl

end Cuts

theorem cutAll_eq (data : List Char) : cutAll data = .ok (segments data) := by
  have hstart : Cuts.Follows [] {} := .lead (by simp)
  obtain ⟨cuts, hcuts, h⟩ := hstart.foldlM data
  rw [byteLength_nil, List.nil_append] at hcuts
  rw [cutAll, hcuts]
  exact h.finish

/-! ## Arguments by their places -/

section Fetch

variable {α : Type}

/-- The argument at an index. -/
def argument (xs : List α) (i : Nat) : Except Breach α :=
  match xs[i]? with
  | some x => .ok x
  | none => .error (.argument i xs.length)

/-- The point whose first coordinate is at the index. -/
def pointAt (xs : List α) (i : Nat) : Except Breach (Point α) := do
  let x ← argument xs i
  let y ← argument xs (i + 1)
  pure ⟨x, y⟩

theorem exists_argument_iff (xs : List α) (i : Nat) :
    (∃ x, argument xs i = .ok x) ↔ i < xs.length := by
  rw [argument]
  by_cases h : i < xs.length <;> simp [h]

theorem exists_bind_ok_iff {β γ : Type} {x : Except Breach β} {f : β → Except Breach γ} :
    (∃ c, x >>= f = .ok c) ↔ ∃ b, x = .ok b ∧ ∃ c, f b = .ok c := by
  cases x <;> simp [bind, Except.bind]

theorem exists_pure_ok {β : Type} (b : β) : ∃ c, (pure b : Except Breach β) = .ok c := ⟨b, rfl⟩

theorem exists_pointAt_iff (xs : List α) (i : Nat) :
    (∃ p, pointAt xs i = .ok p) ↔ i + 1 < xs.length := by
  simp only [pointAt, exists_bind_ok_iff, exists_pure_ok, and_true, exists_and_right,
    exists_argument_iff]
  omega

end Fetch

end Path

namespace Verb

open IconCode.Path

variable {α : Type} [Scalar α]

/-- The instruction of a letter with its arguments from their places. -/
def fetch (v : Verb) (xs : List α) : Except Breach (Instruction α) :=
  match v with
  | .moveTo => do
    let target ← pointAt xs 0
    pure (.moveTo target)
  | .lineTo => do
    let target ← pointAt xs 0
    pure (.lineTo target)
  | .horizontal => do
    let x ← argument xs 0
    pure (.horizontal x)
  | .vertical => do
    let y ← argument xs 0
    pure (.vertical y)
  | .quadratic => do
    let control ← pointAt xs 0
    let target ← pointAt xs 2
    pure (.quadratic control target)
  | .smoothQuadratic => do
    let target ← pointAt xs 0
    pure (.smoothQuadratic target)
  | .cubic => do
    let control₂ ← pointAt xs 2
    let target ← pointAt xs 4
    let control₁ ← pointAt xs 0
    pure (.cubic control₁ control₂ target)
  | .smoothCubic => do
    let control₂ ← pointAt xs 0
    let target ← pointAt xs 2
    pure (.smoothCubic control₂ target)
  | .arc => do
    let target ← pointAt xs 5
    let width ← argument xs 0
    let height ← argument xs 1
    let rotation ← argument xs 2
    let large ← argument xs 3
    let sweep ← argument xs 4
    pure (.arc ⟨width, height⟩ rotation (!Scalar.isZero large) (!Scalar.isZero sweep) target)
  | .close => pure .close

/-- The places that a letter reads are those below its arity. -/
theorem exists_fetch_iff (v : Verb) (xs : List α) :
    (∃ i, v.fetch xs = .ok i) ↔ v.arity ≤ xs.length := by
  cases v <;>
    simp only [fetch, arity, exists_bind_ok_iff, exists_pure_ok, and_true, exists_and_right,
      exists_pointAt_iff, exists_argument_iff, true_iff] <;> omega

example : fetch .arc [5.0, 6.0, 0.0, 0.0, 1.0, 7.0] = .error (.argument 6 6) := rfl

/-- By their places come the arguments that come by pattern. -/
theorem fetch_of_ofArguments? {v : Verb} {xs : List α} {i : Instruction α}
    (hi : Instruction.ofArguments? v xs = some i) : v.fetch xs = .ok i := by
  rw [Instruction.ofArguments?.eq_def] at hi
  split at hi <;> cases hi <;> rfl

end Verb

/-! ## Steps -/

namespace Call

/-- The instruction of a call, its letter being known and its arguments in their places. -/
def fetch (c : Call) : Except Path.Breach (Instruction Float) :=
  match Verb.ofLetter? c.letter with
  | none => .error (.letter c.letter)
  | some v => v.fetch c.arguments

/-- Whether a call has the arguments that its letter takes, and takes any. -/
structure Fits (c : Call) : Prop where
  arity : Path.arity? c.letter = some c.arguments.length
  letter : c.letter ∉ ['Z', 'z']

theorem Fits.exists_fetch {c : Call} (h : c.Fits) : ∃ i, c.fetch = .ok i := by
  have harity := h.arity
  rw [Path.arity?_eq_map, Option.map_eq_some_iff] at harity
  obtain ⟨v, hv, hlength⟩ := harity
  simp only [fetch, hv]
  exact (v.exists_fetch_iff c.arguments).2 (Nat.le_of_eq hlength)

end Call

namespace Path

open Text

/-- What is done with the pen: a subpath is closed without a call, everything else is called for. -/
inductive Step where
  | close
  | apply (call : Call)

/-- The steps of a segment. The arity of its letter is looked up, and the numbers have to be so many
times as many. -/
def Segment.steps (s : Segment) : Except ReadError (List Step) :=
  match arity? s.letter with
  | none => .error (s.fault .unknownCommand)
  | some n =>
    match Number.numbers s.raw with
    | .error e => .error e
    | .ok xs =>
      if n = 0 then
        if xs.isEmpty then .ok [.close] else .error (s.fault (.wrongArgumentCount n xs.length))
      else if xs.length % n = 0 then .ok ((groups n xs).map fun group => .apply ⟨s.letter, group⟩)
      else .error (s.fault (.wrongArgumentCount n xs.length))

/-- The steps up to the first segment at fault, and its error. -/
def stepsAll : List Segment → List Step × Option ReadError
  | [] => ([], none)
  | s :: rest =>
    match s.steps with
    | .error e => ([], some e)
    | .ok steps => (steps ++ (stepsAll rest).1, (stepsAll rest).2)

/-- The steps of path data up to its error, if there is one. -/
def stepsByIndex (data : List Char) : Except Breach (List Step × Option ReadError) := do
  let (lead, segs) ← cutAll data
  if (trim lead).isEmpty then pure (stepsAll segs)
  else pure ([], some (.invalidPath "" (String.ofList (trim lead)) .missingCommand))

/-- What a step draws, and the pen after it. -/
def Step.perform (pen : Pen Float) : Step → Except Breach (List (Command Float) × Pen Float)
  | .close => pure (pen.draw .close)
  | .apply c => do
    let i ← c.fetch
    pure (pen.apply c.reference i)

def performAll (pen : Pen Float) : List Step → Except Breach (List (Command Float) × Pen Float)
  | [] => pure ([], pen)
  | step :: rest => do
    let here ← step.perform pen
    let after ← performAll here.2 rest
    pure (here.1 ++ after.1, after.2)

/-- The commands of path data, or its error, with every access by index. -/
def parseByIndex (data : List Char) :
    Except Breach (Except ReadError (List (Command Float))) := do
  let (steps, fault?) ← stepsByIndex data
  let (drawn, _) ← performAll .atOrigin steps
  pure (fault?.elim (.ok drawn) .error)

/-! ## Steps of segments -/

theorem arity?_of_closing {letter : Char} (h : letter ∈ ['Z', 'z']) : arity? letter = some 0 := by
  rcases List.mem_pair.1 h with rfl | rfl <;> rfl

theorem Segment.fits_of_mem_steps {s : Segment} {steps : List Step} (h : s.steps = .ok steps)
    {c : Call} (hc : .apply c ∈ steps) : c.Fits := by
  unfold Segment.steps at h
  split at h
  · cases h
  · rename_i n hn
    split at h
    · cases h
    · rename_i xs hx
      split at h
      · split at h
        · cases h
          simp at hc
        · cases h
      · rename_i hzero
        split at h
        · rename_i hmod
          cases h
          obtain ⟨group, hgroup, heq⟩ := List.mem_map.1 hc
          cases heq
          have hwhole := (groups_go_length_iff (Nat.pos_of_ne_zero hzero) (Nat.le_refl _)).2
            (Nat.dvd_of_mod_eq_zero hmod)
          refine ⟨by rw [hwhole group hgroup, hn], fun hclosing => hzero ?_⟩
          rw [arity?_of_closing hclosing] at hn
          exact (Option.some.inj hn).symm
        · cases h

/-- Whether a step does what an instruction does, whatever the pen is. -/
def Step.Means (step : Step) (i : Reference × Instruction Float) : Prop :=
  ∀ pen, step.perform pen = .ok (pen.apply i.1 i.2)

theorem Step.means_apply {letter : Char} {v : Verb} (hv : Verb.ofLetter? letter = some v)
    {group : List Float} {i : Instruction Float} (hi : Instruction.ofArguments? v group = some i) :
    Step.Means (.apply ⟨letter, group⟩) ((Call.mk letter group).reference, i) := by
  intro pen
  simp only [Step.perform, Call.fetch, hv, Verb.fetch_of_ofArguments? hi]
  rfl

theorem forall₂_of_mapM {α β : Type} {f : α → Option β} {xs : List α} {ys : List β}
    (h : xs.mapM f = some ys) : List.Forall₂ (fun x y => f x = some y) xs ys := by
  induction xs generalizing ys with
  | nil =>
    cases h
    exact .nil
  | cons x xs ih =>
    rw [List.mapM_cons, Option.bind_eq_bind, Option.bind_eq_some_iff] at h
    obtain ⟨y, hy, h⟩ := h
    obtain ⟨zs, hzs, h⟩ := Option.bind_eq_some_iff.1 h
    cases h
    exact .cons hy (ih hzs)

/-- A segment has the same error as by pattern, or steps that mean the same. -/
theorem Segment.steps_spec (s : Segment) :
    (∃ e, s.steps = .error e ∧ s.read = .error e) ∨
      ∃ steps is, s.steps = .ok steps ∧ s.read = .ok is ∧ List.Forall₂ Step.Means steps is := by
  unfold steps read
  rw [arity?_eq_map]
  cases hv : Verb.ofLetter? s.letter with
  | none => exact .inl ⟨_, rfl, rfl⟩
  | some v =>
    simp only [Option.map_some]
    cases Number.numbers s.raw with
    | error e => exact .inl ⟨e, rfl, rfl⟩
    | ok xs =>
      by_cases hclose : v = .close
      · -- A closing letter is no call: its arity is zero, by which nothing can be divided.
        subst hclose
        cases xs with
        | nil =>
          have hmeans : Step.Means .close (s.reference, .close) := fun _ => rfl
          exact .inr ⟨_, _, rfl, rfl, .cons hmeans .nil⟩
        | cons x xs => exact .inl ⟨_, rfl, rfl⟩
      · have hpos := arity_pos hclose
        have hsome := isSome_instructions?_iff v xs
        rw [Nat.dvd_iff_mod_eq_zero] at hsome
        simp only [if_neg (Nat.ne_of_gt hpos)]
        cases hi : instructions? v xs with
        | none =>
          rw [hi] at hsome
          rw [if_neg (by simpa using hsome)]
          exact .inl ⟨_, rfl, rfl⟩
        | some is =>
          rw [hi] at hsome
          rw [if_pos (by simpa using hsome)]
          rw [instructions?_eq_mapM hclose] at hi
          refine .inr ⟨_, _, rfl, rfl, ?_⟩
          rw [List.forall₂_map_left_iff, List.forall₂_map_right_iff]
          exact (forall₂_of_mapM hi).imp fun group i h => Step.means_apply hv h

/-! ## Path data -/

theorem fits_of_mem_stepsAll {segs : List Segment} {c : Call}
    (hc : .apply c ∈ (stepsAll segs).1) : c.Fits := by
  induction segs with
  | nil => simp [stepsAll] at hc
  | cons s segs ih =>
    rw [stepsAll] at hc
    split at hc
    · simp at hc
    · rename_i steps hs
      rcases List.mem_append.1 hc with hc | hc
      · exact Segment.fits_of_mem_steps hs hc
      · exact ih hc

theorem stepsAll_spec (segs : List Segment) :
    ∃ is, List.Forall₂ Step.Means (stepsAll segs).1 is ∧
      Segment.readAll segs = (stepsAll segs).2.elim (.ok is) .error := by
  induction segs with
  | nil => exact ⟨[], .nil, rfl⟩
  | cons s segs ih =>
    obtain ⟨js, hjs, hrest⟩ := ih
    rw [stepsAll, Segment.readAll]
    rcases s.steps_spec with ⟨e, hs, hr⟩ | ⟨steps, is, hs, hr, his⟩
    · rw [hs, hr]
      exact ⟨[], .nil, rfl⟩
    · rw [hs, hr, hrest]
      refine ⟨is ++ js, List.rel_append his hjs, ?_⟩
      cases (stepsAll segs).2 <;> rfl

/-- The steps of path data fit, and mean its instructions up to the error. -/
theorem stepsByIndex_spec (data : List Char) :
    ∃ steps fault? is, stepsByIndex data = .ok (steps, fault?) ∧
      (∀ c, .apply c ∈ steps → c.Fits) ∧ List.Forall₂ Step.Means steps is ∧
      instructions data = fault?.elim (.ok is) .error := by
  rw [stepsByIndex, cutAll_eq, instructions]
  by_cases hlead : (trim (segments data).1).isEmpty = true
  · obtain ⟨is, his, hread⟩ := stepsAll_spec (segments data).2
    refine ⟨_, _, is, if_pos hlead, fun c => fits_of_mem_stepsAll, his, ?_⟩
    simp only [hlead, if_true]
    exact hread
  · refine ⟨[], _, [], if_neg hlead, by simp, .nil, ?_⟩
    simp only [hlead]
    rfl

theorem performAll_eq {steps : List Step} {is : List (Reference × Instruction Float)}
    (h : List.Forall₂ Step.Means steps is) (pen : Pen Float) :
    performAll pen steps = .ok (pen.drawAll is) := by
  induction h generalizing pen with
  | nil => rfl
  | @cons step i steps is hi _ ih =>
    rw [performAll, hi pen]
    simp only [bind, Except.bind, ih]
    rfl

end Path

/-! ## Points -/

namespace Reader

open IconCode.Path (Breach groups groups_group_append groups_go_length_iff pointAt)

/-- The numbers of points in groups of two. -/
def pointChunks (value : List Char) : Except ReadError (List (List Float)) :=
  match Number.numbers value with
  | .error e => .error e
  | .ok xs =>
    if xs.length % 2 = 0 then .ok (groups 2 xs)
    else .error (.invalidNumber (String.ofList value))

/-- A list of points, the coordinates of each from their places. -/
def pointsByIndex (value : List Char) : Except Breach (Except ReadError (List (Point Float))) :=
  match pointChunks value with
  | .error e => pure (.error e)
  | .ok chunks => do
    let ps ← chunks.mapM (pointAt · 0)
    pure (.ok ps)

theorem length_of_mem_pointChunks {value : List Char} {chunks : List (List Float)}
    (h : pointChunks value = .ok chunks) {pair : List Float} (hp : pair ∈ chunks) :
    pair.length = 2 := by
  unfold pointChunks at h
  split at h
  · cases h
  · split at h
    · rename_i hmod
      cases h
      exact (groups_go_length_iff (by decide) (Nat.le_refl _)).2 (Nat.dvd_of_mod_eq_zero hmod) pair
        hp
    · cases h

theorem pairs?_spec {α : Type} (xs : List α) :
    if xs.length % 2 = 0 then
      ∃ ps, pairs? xs = some ps ∧ (groups 2 xs).mapM (pointAt · 0) = .ok ps
    else pairs? xs = none := by
  fun_induction pairs? xs with
  | case1 => exact ⟨[], rfl, rfl⟩
  | case2 x => rfl
  | case3 x y rest ih =>
    have hmod : (x :: y :: rest).length % 2 = rest.length % 2 :=
      Nat.add_mod_right rest.length 2
    have hpair : [x, y].length = 2 := rfl
    have hgroups : groups 2 (x :: y :: rest) = [x, y] :: groups 2 rest :=
      groups_group_append Nat.two_pos hpair rest
    rw [hmod]
    split at ih
    · rename_i heven
      obtain ⟨ps, hps, hread⟩ := ih
      rw [if_pos heven, hps, hgroups, List.mapM_cons, hread]
      exact ⟨⟨x, y⟩ :: ps, rfl, rfl⟩
    · rename_i hodd
      rw [if_neg hodd, ih]
      rfl

theorem pointsByIndex_eq (value : List Char) : pointsByIndex value = .ok (points value) := by
  rw [pointsByIndex, pointChunks, points]
  cases Number.numbers value with
  | error e => rfl
  | ok xs =>
    have hspec := pairs?_spec xs
    by_cases heven : xs.length % 2 = 0
    · rw [if_pos heven] at hspec
      obtain ⟨ps, hps, hread⟩ := hspec
      simp only [if_pos heven, hps, hread]
      rfl
    · rw [if_neg heven] at hspec
      simp only [if_neg heven, hspec]
      rfl

end Reader

/-! ## Everything by index -/

/-- Whatever the text is, reading it by index gives the commands or the error that reading it by
pattern gives. Every group of arguments that is called with has exactly as many as its letter takes,
all of which are in their places, and no closing letter is called. So it is with points, whose
numbers come in pairs. -/
theorem Path.parseByIndex_eq :
    (∀ data, parseByIndex data = .ok (parse data) ∧
      ∃ steps fault?, stepsByIndex data = .ok (steps, fault?) ∧
        ∀ c, .apply c ∈ steps → c.Fits ∧ ∃ i, c.fetch = .ok i) ∧
    ∀ value, Reader.pointsByIndex value = .ok (Reader.points value) ∧
      ∀ chunks, Reader.pointChunks value = .ok chunks → ∀ pair ∈ chunks, pair.length = 2 := by
  refine ⟨fun data => ?_, fun value => ⟨Reader.pointsByIndex_eq value, fun chunks hchunks pair =>
    Reader.length_of_mem_pointChunks hchunks⟩⟩
  obtain ⟨steps, fault?, is, hsteps, hfits, his, hread⟩ := stepsByIndex_spec data
  refine ⟨?_, steps, fault?, hsteps, fun c hc => ⟨hfits c hc, (hfits c hc).exists_fetch⟩⟩
  rw [parseByIndex, hsteps, parse, hread]
  simp only [bind, Except.bind, performAll_eq his]
  cases fault? <;> rfl

end IconCode

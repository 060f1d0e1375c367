import IconCode.Number.Parser
import IconCode.Path.Pen

/-!
# Path data

The text of a path: command letters, each followed by numbers. A letter may be followed by several
groups of arguments, and then counts as repeated.

* `segments_append`: letters divide the text from left to right.
-/

namespace IconCode.Path

open Text

/-! ## Segments -/

/-- Letters are commands, except for the one of exponents. -/
def isLetter (c : Char) : Bool := c.isAlpha && c != 'e' && c != 'E'

/-- A letter and the text up to the next one. -/
structure Segment where
  letter : Char
  raw : List Char
deriving DecidableEq, Repr

/-- The text before the first letter, and the segments. -/
def segments : List Char → List Char × List Segment
  | [] => ([], [])
  | c :: s =>
    let rest := segments s
    if isLetter c then ([], ⟨c, rest.1⟩ :: rest.2) else (c :: rest.1, rest.2)

theorem segments_append {s t : List Char} (h : ∀ c ∈ s, isLetter c = false) :
    segments (s ++ t) = (s ++ (segments t).1, (segments t).2) := by
  induction s with
  | nil => rfl
  | cons c s ih =>
    simp only [List.cons_append, segments, h c (by simp), ih fun d hd => h d (by simp [hd])]
    simp

/-! ## Groups of arguments -/

/-- The list in groups of `n`, the last of them perhaps shorter. -/
def groups {α : Type} (n : Nat) (xs : List α) : List (List α) := go xs.length xs
where
  /-- At most as many groups as there are elements. -/
  go : Nat → List α → List (List α)
    | 0, _ => []
    | _ + 1, [] => []
    | fuel + 1, x :: xs => (x :: xs).take n :: go fuel ((x :: xs).drop n)

/-- The instructions of a letter and all its arguments: a closing letter takes none and stands for
one instruction, every other letter for as many as it has complete groups. -/
def instructions? {α : Type} [Scalar α] (v : Verb) (xs : List α) : Option (List (Instruction α)) :=
  match v with
  | .close => if xs.isEmpty then some [.close] else none
  | _ => (groups v.arity xs).mapM (Instruction.ofArguments? v)

/-! ## Reading -/

namespace Segment

def reference (s : Segment) : Reference := if s.letter.isLower then .relative else .absolute

/-- The error that a segment has, with its letter and its text. -/
def fault (s : Segment) (f : PathFault) : ReadError :=
  .invalidPath (String.singleton s.letter) (String.ofList (trim s.raw)) f

/-- The instructions of a segment. An unknown letter is worse than what follows it, and a malformed
number worse than a wrong count. -/
def read (s : Segment) : Except ReadError (List (Reference × Instruction Float)) :=
  match Verb.ofLetter? s.letter with
  | none => .error (s.fault .unknownCommand)
  | some v =>
    match Number.numbers s.raw with
    | .error e => .error e
    | .ok xs =>
      match instructions? v xs with
      | none => .error (s.fault (.wrongArgumentCount v.arity xs.length))
      | some is => .ok (is.map (s.reference, ·))

/-- The instructions of several segments, or the error of the first that has one. -/
def readAll : List Segment → Except ReadError (List (Reference × Instruction Float))
  | [] => .ok []
  | s :: rest =>
    match s.read with
    | .error e => .error e
    | .ok is =>
      match readAll rest with
      | .error e => .error e
      | .ok js => .ok (is ++ js)

end Segment

/-- The instructions of path data. Nothing but blanks may stand before the first letter. -/
def instructions (data : List Char) : Except ReadError (List (Reference × Instruction Float)) :=
  let (lead, rest) := segments data
  if (trim lead).isEmpty then Segment.readAll rest
  else .error (.invalidPath "" (String.ofList (trim lead)) .missingCommand)

/-- The commands that path data draws. -/
def parse (data : List Char) : Except ReadError (List (Command Float)) :=
  (instructions data).map fun is => (Pen.atOrigin.drawAll is).1

end IconCode.Path

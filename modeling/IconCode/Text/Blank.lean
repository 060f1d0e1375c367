/-!
# Blanks

Text is handled as the list of its characters. This module holds the characters that count as
white space in numbers, paints and titles, and what is done with them: trimming and cutting.

* `trim_eq_nil`: a text without anything but blanks is trimmed to nothing.
* `trim_trim`: a trimmed text has nothing to trim.
* `pieces_append`: cutting a text at a separator cuts both sides of it.
-/

namespace IconCode.Text

/-! ## White space -/

/-- White space: the 25 code points that have that property. -/
def isBlank (c : Char) : Bool :=
  let n := c.toNat
  (9 ≤ n && n ≤ 13) || n == 0x20 || n == 0x85 || n == 0xA0 || n == 0x1680
    || (0x2000 ≤ n && n ≤ 0x200A) || n == 0x2028 || n == 0x2029 || n == 0x202F
    || n == 0x205F || n == 0x3000

def trimLeft (s : List Char) : List Char := s.dropWhile isBlank

def trimRight (s : List Char) : List Char := (s.reverse.dropWhile isBlank).reverse

/-- A text without the blanks at its two ends. -/
def trim (s : List Char) : List Char := trimRight (trimLeft s)

theorem trimLeft_eq_nil {s : List Char} (h : ∀ c ∈ s, isBlank c = true) : trimLeft s = [] := by
  induction s with
  | nil => rfl
  | cons c s ih =>
    rw [trimLeft, List.dropWhile_cons, if_pos (h c (by simp))]
    exact ih fun d hd => h d (by simp [hd])

theorem trim_eq_nil {s : List Char} (h : ∀ c ∈ s, isBlank c = true) : trim s = [] := by
  simp [trim, trimLeft_eq_nil h, trimRight]

/-- Trimming takes away nothing but blanks. -/
theorem any_trim (s : List Char) : (trim s).any (fun c => !isBlank c) = !s.all isBlank := by
  rw [trim, trimRight, List.any_reverse, List.any_dropWhile, List.all_reverse,
    List.not_all_eq_any_not, trimLeft, List.any_dropWhile]

theorem trim_eq_nil_iff {s : List Char} : trim s = [] ↔ ∀ c ∈ s, isBlank c = true := by
  refine ⟨?_, trim_eq_nil⟩
  intro h
  have hany := any_trim s
  rw [h] at hany
  simpa using hany

theorem trimLeft_of_not_blank {c : Char} (h : isBlank c = false) (s : List Char) :
    trimLeft (c :: s) = c :: s := by
  rw [trimLeft, List.dropWhile_cons_of_neg (by simp [h])]

theorem trimRight_of_not_blank {c : Char} (h : isBlank c = false) (s : List Char) :
    trimRight (c :: s) = c :: trimRight s := by
  have hall : ∀ t : List Char, (t ++ [c]).dropWhile isBlank = t.dropWhile isBlank ++ [c] := by
    intro t
    induction t with
    | nil => exact trimLeft_of_not_blank h []
    | cons d t ih => cases hd : isBlank d <;> simp [hd, ih]
  rw [trimRight, trimRight, List.reverse_cons, hall, List.reverse_append, List.reverse_singleton,
    List.singleton_append]

theorem trimRight_trimRight (s : List Char) : trimRight (trimRight s) = trimRight s := by
  have hdrop : ∀ t : List Char, (t.dropWhile isBlank).dropWhile isBlank = t.dropWhile isBlank := by
    intro t
    induction t with
    | nil => rfl
    | cons c t ih => cases hc : isBlank c <;> simp [hc, ih]
  rw [trimRight, trimRight, List.reverse_reverse, hdrop]

theorem trim_trim (s : List Char) : trim (trim s) = trim s := by
  induction s with
  | nil => rfl
  | cons c s ih =>
    cases hc : isBlank c with
    | true =>
      have hskip : trim (c :: s) = trim s := by
        rw [trim, trimLeft, List.dropWhile_cons_of_pos hc]
        rfl
      rw [hskip, ih]
    | false =>
      have hkeep : ∀ t, trim (c :: t) = c :: trimRight t := fun t => by
        rw [trim, trimLeft_of_not_blank hc, trimRight_of_not_blank hc]
      rw [hkeep, hkeep, trimRight_trimRight]

/-! ## Cutting -/

/-- What stands before, between and after the separators: one piece more than separators. -/
def pieces (separator : Char) : List Char → List (List Char)
  | [] => [[]]
  | c :: s =>
    if c = separator then [] :: pieces separator s
    else
      match pieces separator s with
      | [] => [[c]]
      | piece :: rest => (c :: piece) :: rest

theorem pieces_ne_nil (separator : Char) (s : List Char) : pieces separator s ≠ [] := by
  cases s with
  | nil => simp [pieces]
  | cons c s =>
    simp only [pieces]
    split
    · simp
    · split <;> simp

theorem pieces_append (separator : Char) (s t : List Char) :
    pieces separator (s ++ separator :: t) = pieces separator s ++ pieces separator t := by
  induction s with
  | nil => simp [pieces]
  | cons c s ih =>
    by_cases h : c = separator
    · simp [pieces, h, ih]
    · simp only [List.cons_append, pieces, h, if_false, ih]
      cases hp : pieces separator s with
      | nil => exact absurd hp (pieces_ne_nil _ _)
      | cons piece rest => rfl

/-- The text before the first separator and the text after it. -/
def cut? (separator : Char) (s : List Char) : Option (List Char × List Char) :=
  match s.dropWhile (· ≠ separator) with
  | [] => none
  | _ :: rest => some (s.takeWhile (· ≠ separator), rest)

/-! ## Case -/

/-- Equality of texts that takes the ASCII capitals for their small letters. -/
def equalsIgnoringCase (s t : List Char) : Bool := s.map Char.toLower == t.map Char.toLower

/-- The text in small letters, as far as its result can be ASCII: besides the ASCII capitals only
the Kelvin sign has an ASCII letter for its small letter. -/
def lowered (s : List Char) : List Char :=
  s.map fun c => if c = '\u212A' then 'k' else c.toLower

end IconCode.Text

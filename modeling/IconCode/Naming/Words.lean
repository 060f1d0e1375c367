/-!
# Words of a title

A title is divided into words at everything that is not an ASCII letter or digit, before a capital
after a small letter or digit, and before the last capital of several if a small letter follows it.

* `words_of_separators`: a text without letters and digits has no words.
-/

namespace IconCode.Naming

/-- Whether a new word begins between two adjacent letters or digits. -/
def isBoundary (previous c : Char) (next : Option Char) : Bool :=
  (previous.isLower || previous.isDigit) && c.isUpper
    || previous.isUpper && c.isUpper && next.any Char.isLower

/-- Words of which the first may be empty, in which case it does not count. -/
def collect (w : List Char) (ws : List (List Char)) : List (List Char) :=
  if w.isEmpty then ws else w :: ws

/-- What is still to come of the current word, and the words after it, where `previous` is the
letter or digit just before the text. -/
def wordsFrom : Option Char → List Char → List Char × List (List Char)
  | _, [] => ([], [])
  | previous, c :: s =>
    if c.isAlphanum then
      let rest := wordsFrom (some c) s
      let word := c.toLower :: rest.1
      if previous.any fun p => isBoundary p c s.head? then ([], word :: rest.2) else (word, rest.2)
    else
      let rest := wordsFrom none s
      ([], collect rest.1 rest.2)

/-- The words of a title in small letters. -/
def words (title : List Char) : List (List Char) :=
  let rest := wordsFrom none title
  collect rest.1 rest.2

theorem wordsFrom_of_separators {s : List Char} (h : ∀ c ∈ s, c.isAlphanum = false)
    (previous : Option Char) : wordsFrom previous s = ([], []) := by
  induction s generalizing previous with
  | nil => simp [wordsFrom]
  | cons c s ih =>
    have hs := ih (fun d hd => h d (List.mem_cons_of_mem _ hd)) none
    simp [wordsFrom, h c (by simp), hs, collect]

theorem words_of_separators {s : List Char} (h : ∀ c ∈ s, c.isAlphanum = false) :
    words s = [] := by
  simp [words, wordsFrom_of_separators h, collect]

/-! ## Joined words -/

def capitalized : List Char → List Char
  | [] => []
  | c :: w => c.toUpper :: w

/-- The words with a capital for each but the first. -/
def lowerCamel (title : List Char) : List Char :=
  match words title with
  | [] => []
  | w :: ws => w ++ (ws.map capitalized).flatten

/-- The words with a capital for each. -/
def upperCamel (title : List Char) : List Char := ((words title).map capitalized).flatten

end IconCode.Naming

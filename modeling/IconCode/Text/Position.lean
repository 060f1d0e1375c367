/-!
# Places in a text
-/

namespace IconCode.Text

/-- A line and a column, both counted from one and in characters. -/
structure Position where
  line : Nat
  column : Nat
deriving DecidableEq, Repr

namespace Position

def start : Position := ⟨1, 1⟩

/-- Where one is after reading a character. -/
def next (p : Position) (c : Char) : Position :=
  if c = '\n' then ⟨p.line + 1, 1⟩ else ⟨p.line, p.column + 1⟩

/-- Where one is after reading a text. -/
def after (p : Position) (s : List Char) : Position := s.foldl next p

end Position

end IconCode.Text

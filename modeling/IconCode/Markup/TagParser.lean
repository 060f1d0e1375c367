import IconCode.Markup.Character
import IconCode.Markup.Event
import IconCode.Text.Blank

/-!
# The inside of tags

What stands between `<` and `>` is read on its own: a slash and a name for a closing tag, otherwise
a name, attributes, and an optional slash. The first thing that is not an attribute ends the
attributes, and what had been read of it does not come back.
-/

namespace IconCode.Markup

open Text

/-- A name in the text's beginning, and what is left. Names lose the blanks around them, which some
of their characters are, so an attribute may have a name without characters. -/
def takeName (s : List Char) : Option (List Char) × List Char :=
  match s with
  | [] => (none, [])
  | c :: r =>
    if isNameStart c then (some (trim (c :: r.takeWhile isNameChar)), r.dropWhile isNameChar)
    else (none, s)

/-- The name of a tag, which has characters, and what is left. -/
def takeTagName (s : List Char) : Option (List Char) × List Char :=
  ((takeName s).1.filter fun name => !name.isEmpty, (takeName s).2)

def skipSpaces (s : List Char) : List Char := s.dropWhile isSpace

/-- A value in quotes, without markup characters in it. -/
def takeQuoted (s : List Char) : Option (List Char) × List Char :=
  match s with
  | [] => (none, [])
  | q :: r =>
    if q = '"' ∨ q = '\'' then
      let inside := fun c => c != '<' && c != '&' && c != q
      match r.dropWhile inside with
      | [] => (none, [])
      | c :: rest => if c = q then (some (r.takeWhile inside), rest) else (none, c :: rest)
    else (none, s)

/-- An attribute in the text's beginning, and what is left. -/
def takeAttribute (s : List Char) : Option Attribute × List Char :=
  match takeName (skipSpaces s) with
  | (none, r) => (none, r)
  | (some name, r) =>
    match skipSpaces r with
    | '=' :: r =>
      match takeQuoted (skipSpaces r) with
      | (none, r) => (none, r)
      | (some value, r) => (some ⟨String.ofList name, String.ofList value⟩, r)
    | r => (none, r)

/-- As many attributes as there are, and what is left; the bound is the length of the text. -/
def takeAttributes : Nat → List Char → List Attribute × List Char
  | 0, s => ([], s)
  | fuel + 1, s =>
    match takeAttribute s with
    | (none, r) => ([], r)
    | (some a, r) => (a :: (takeAttributes fuel r).1, (takeAttributes fuel r).2)

/-- The tag that is written between the angle brackets. -/
def Tag.ofInside (s : List Char) : Except (MarkupFault × Position) Tag :=
  let placeOf := fun rest : List Char => Position.start.after (s.take (s.length - rest.length))
  match s with
  | '/' :: r =>
    match takeTagName r with
    | (none, r) => .error (.name, placeOf r)
    | (some name, r) =>
      match skipSpaces r with
      | [] => .ok ⟨.closing, String.ofList name, []⟩
      | r => .error (.endTag, placeOf r)
  | _ =>
    match takeTagName s with
    | (none, r) => .error (.name, placeOf r)
    | (some name, r) =>
      let attributes := takeAttributes r.length r
      match trim attributes.2 with
      | [] => .ok ⟨.opening, String.ofList name, attributes.1⟩
      | ['/'] => .ok ⟨.empty, String.ofList name, attributes.1⟩
      | _ => .error (.tagEnding, Position.start.after s)

end IconCode.Markup

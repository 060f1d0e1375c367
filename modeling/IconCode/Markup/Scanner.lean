import IconCode.Markup.TagParser

/-!
# Scanning markup

Markup is text with tags, comments, declarations and instructions in it. A piece that is not well
formed ends the scan; its place is where reading stopped.
-/

namespace IconCode.Markup

open Text

/-- The characters of a comment before its end: hyphens belong to it if a character other than a
hyphen follows. What is left begins with what stopped the reading. -/
def takeComment : List Char → List Char × List Char
  | [] => ([], [])
  | c :: s =>
    if !isContent c then ([], c :: s)
    else if c = '-' ∧ !(s.head?.any fun d => isContent d && d != '-') then ([], c :: s)
    else (c :: (takeComment s).1, (takeComment s).2)

/-- The part of an expected text that is found, and what is left. -/
def takeExpected : List Char → List Char → List Char × List Char
  | e :: es, c :: s =>
    if e = c then (c :: (takeExpected es s).1, (takeExpected es s).2) else ([], c :: s)
  | _, s => ([], s)

/-- A piece of markup after its `<`. -/
inductive Piece where
  | comment (inside : List Char)
  | declaration (inside : List Char)
  | instruction (inside : List Char)
  | tag (inside : List Char)

/-- What is read, the piece that it makes if it is complete, and what is left. -/
structure Reading where
  read : List Char
  piece : Except MarkupFault Piece
  rest : List Char

/-- Everything up to the closing `>`, which has to hold something. -/
def takeClosed (opening : List Char) (fault : MarkupFault) (piece : List Char → Piece)
    (s : List Char) : Reading :=
  let inside := s.takeWhile (· != '>')
  match inside, s.dropWhile (· != '>') with
  | _ :: _, c :: rest => ⟨opening ++ inside ++ [c], .ok (piece inside), rest⟩
  | _, rest => ⟨opening ++ inside, .error fault, rest⟩

/-- A comment from its beginning on. -/
def takeCommentPiece (opening s : List Char) : Reading :=
  let inside := takeComment s
  let ending := takeExpected ['-', '-', '>'] inside.2
  let read := opening ++ inside.1 ++ ending.1
  if ending.1.length = 3 then ⟨read, .ok (.comment inside.1), ending.2⟩
  else ⟨read, .error .comment, ending.2⟩

/-- The piece that begins with the `<` before the text. -/
def takePiece : List Char → Reading
  | '!' :: '-' :: '-' :: s => takeCommentPiece ['<', '!', '-', '-'] s
  | '!' :: s => takeClosed ['<', '!'] .declaration .declaration s
  | '?' :: s => takeClosed ['<', '?'] .instruction .instruction s
  | s => takeClosed ['<'] .tag .tag s

/-- The event of a piece. A tag that is not well formed has its place counted within the tag. -/
def Piece.event : Piece → Event
  | .comment _ => .comment
  | .declaration _ => .declaration
  | .instruction _ => .instruction
  | .tag inside =>
    match Tag.ofInside inside with
    | .ok t => .tag t
    | .error (fault, position) => .malformed fault position

/-- The text before the next tag, if there is anything but blanks in it. -/
def textEvents (s : List Char) : List Event :=
  if (trim s).isEmpty then [] else [.text (String.ofList (trim s))]

/-- The events of a text that begins at a position; the bound is its length. -/
def scanFrom : Nat → Position → List Char → List Event
  | 0, _, _ => []
  | fuel + 1, position, s =>
    let text := s.takeWhile (· != '<')
    textEvents text ++
      match s.dropWhile (· != '<') with
      | [] => []
      | _ :: r =>
        let reading := takePiece r
        let after := (position.after text).after reading.read
        match reading.piece with
        | .error fault => [.malformed fault after]
        | .ok piece => piece.event :: scanFrom fuel after reading.rest

/-- The events of markup. -/
def scan (s : List Char) : List Event := scanFrom (s.length + 1) .start s

end IconCode.Markup

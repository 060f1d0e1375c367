/-!
# Layout

Text with places where a line may end, in boxes. A box that fits on the rest of its line is written
on it. Otherwise a consistent box ends the line at each of its own breaks, and an inconsistent one
only where the text up to the next break would not fit.
-/

namespace IconCode.Code

inductive Item where
  | text (s : String)
  /-- A break: as many blanks, or else `tail`, the end of the line, and the box's indentation moved
  by an offset. -/
  | gap (blanks : Nat) (offset : Int) (tail : String)
  | box (consistent : Bool) (offset : Int) (inside : List Item)

namespace Item

/-- The width of a line, and the least width that deep indentation leaves. -/
def margin : Int := 89

def leastWidth : Int := 60

/-- A width that no line has. -/
def endless : Nat := 65535

/-- A blank or the end of a line. -/
def blank : Item := .gap 1 0 ""

/-- Nothing or the end of a line. -/
def soft : Item := .gap 0 0 ""

/-- The end of a line. -/
def hard : Item := .gap endless 0 ""

/-! ## Widths -/

mutual

/-- The width on one line. -/
def width : Item → Nat
  | .text s => s.length
  | .gap blanks _ _ => blanks
  | .box _ _ inside => widths inside

def widths : List Item → Nat
  | [] => 0
  | i :: is => i.width + widths is

end

/-- The width up to the next break, where `after` is what follows the items up to one. -/
def upToBreak (after : Nat) : List Item → Nat
  | [] => after
  | .gap _ _ _ :: _ => 0
  | i :: is => i.width + upToBreak after is

/-! ## Writing -/

/-- The line that is being written: what is written already, the last piece first, the blanks that
come before the next text, and the space that is left. -/
structure Line where
  written : List String
  pending : Nat
  space : Int

/-- How breaks behave: those of a box that fits stay on the line, those of a consistent box that
does not fit end it, and those of an inconsistent one depend on what follows. -/
inductive Mode where
  | fits
  | consistent
  | inconsistent
deriving DecidableEq, Repr

def blanks (n : Nat) : String := String.ofList (List.replicate n ' ')

namespace Line

def write (l : Line) (s : String) : Line where
  written := s :: blanks l.pending :: l.written
  pending := 0
  space := l.space - s.length

def skip (l : Line) (n : Nat) : Line :=
  { l with pending := l.pending + n, space := l.space - n }

/-- Blanks at the end of a line are not written. -/
def newline (l : Line) (tail : String) (indentation : Int) : Line :=
  let l := if tail.isEmpty then l else l.write tail
  { written := "\n" :: l.written
    pending := indentation.toNat
    space := max (margin - indentation) leastWidth }

end Line

mutual

/-- Writes an item before a width of `after` up to the next break. -/
def put (mode : Mode) (indentation : Int) (after : Nat) (l : Line) : Item → Line
  | .text s => l.write s
  | .gap blanks offset tail =>
    let stays :=
      match mode with
      | .fits => true
      | .consistent => false
      | .inconsistent => ((blanks + after : Nat) : Int) ≤ l.space
    if stays then l.skip blanks else l.newline tail (indentation + offset)
  | .box consistent offset inside =>
    if ((widths inside + after : Nat) : Int) ≤ l.space then
      putAll .fits indentation after l inside
    else
      putAll (if consistent then .consistent else .inconsistent) (indentation + offset) after l
        inside

/-- Writes items one after the other. -/
def putAll (mode : Mode) (indentation : Int) (after : Nat) (l : Line) : List Item → Line
  | [] => l
  | i :: is =>
    putAll mode indentation after (put mode indentation (upToBreak after is) l i) is

end

/-- The text of a layout. -/
def render (items : List Item) : String :=
  let l := putAll .consistent 0 0 ⟨[], 0, margin⟩ items
  String.join l.written.reverse

end Item

end IconCode.Code

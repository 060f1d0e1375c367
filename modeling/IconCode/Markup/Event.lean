import IconCode.Error

/-!
# Markup events

What a scanner finds in markup, from left to right.
-/

namespace IconCode.Markup

structure Attribute where
  name : String
  value : String
deriving DecidableEq, Repr

/-- A tag that opens an element, one that opens and closes it, and one that closes it. -/
inductive TagKind where
  | opening
  | empty
  | closing
deriving DecidableEq, Repr

structure Tag where
  kind : TagKind
  name : String
  attributes : List Attribute
deriving DecidableEq, Repr

/-- The events of a scan. A malformed piece ends the scan. -/
inductive Event where
  | tag (tag : Tag)
  | text (text : String)
  | comment
  | declaration
  | instruction
  | malformed (fault : MarkupFault) (position : Text.Position)
deriving DecidableEq, Repr

/-- What finds the events of markup. -/
abbrev Scanner := List Char → List Event

end IconCode.Markup

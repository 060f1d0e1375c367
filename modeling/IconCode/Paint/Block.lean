import IconCode.Outcome
import IconCode.Paint.Property

/-!
# Declaration blocks

A block is a sequence of clauses `name: value`, separated by semicolons. Blank clauses say nothing,
clauses without a colon or of an unknown name are reported, and a malformed value fails the block.
-/

namespace IconCode.Style

open Text

/-- What a clause says. -/
inductive Clause where
  | blank
  | unknown (rule : String)
  | declaration (property : Property) (value : List Char)

/-- The clause of a text between semicolons. Names count in any case and without the blanks around
them; of several colons the first divides. -/
def Clause.ofText (s : List Char) : Clause :=
  if (trim s).isEmpty then .blank
  else
    match cut? ':' s with
    | none => .unknown (String.ofList (trim s))
    | some (name, value) =>
      match Property.ofName? (String.ofList (lowered (trim name))) with
      | none => .unknown (String.ofList (trim s))
      | some p => .declaration p (trim value)

/-- The style with what a clause adds to it. -/
def addClause (style : Style) : Clause → Outcome Style
  | .blank => pure style
  | .unknown rule => do
    Outcome.report (.unknownStyleRule rule)
    pure style
  | .declaration p value => do
    let declared ← Outcome.ofExcept (p.declare value)
    pure (style.merge declared)

/-- The style that a block declares: of several values for a property the last one. -/
def ofBlock (s : List Char) : Outcome Style :=
  ((pieces ';' s).map Clause.ofText).foldlM addClause empty

end IconCode.Style

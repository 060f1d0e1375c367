import IconCode.Naming.Words

/-!
# Identifiers

The names in generated code that a title gives: of the accessor, of its cache and of the file.

* `ofTitle?_eq_none_iff`: only a title without words gives none.
-/

namespace IconCode.Naming

/-- The words that are no names by themselves. -/
def keywords : List String :=
  ["abstract", "as", "become", "box", "break", "const", "continue", "crate", "do", "else", "enum",
    "extern", "false", "final", "fn", "for", "if", "impl", "in", "let", "loop", "macro", "match",
    "mod", "move", "mut", "override", "priv", "pub", "ref", "return", "Self", "self", "static",
    "struct", "super", "trait", "true", "type", "typeof", "unsafe", "unsized", "use", "virtual",
    "where", "while", "yield"]

/-- The keywords that no mark makes a name. -/
def reserved : List String := ["self", "crate", "super"]

/-- A name in lower camel case, without the mark of raw names. -/
structure Identifier where
  base : String
deriving DecidableEq, Repr

namespace Identifier

/-- The name with an underscore before a digit, and after a reserved word. -/
def adjust (name : List Char) : List Char :=
  let name := if name.head?.any Char.isDigit then '_' :: name else name
  if reserved.contains (String.ofList name) then name ++ ['_'] else name

/-- The name that a title gives. -/
def ofTitle? (title : String) : Option Identifier :=
  let name := lowerCamel title.toList
  if name.isEmpty then none else some ⟨String.ofList (adjust name)⟩

theorem ofTitle?_eq_none_iff (title : String) :
    ofTitle? title = none ↔ lowerCamel title.toList = [] := by
  simp [ofTitle?]

/-- The name of the accessor, marked as raw if it is a keyword. -/
def accessor (i : Identifier) : String :=
  if keywords.contains i.base then "r#" ++ i.base else i.base

def cache (i : Identifier) : String := i.base ++ "Cache"

theorem toList_cache (i : Identifier) : i.cache.toList = i.base.toList ++ "Cache".toList :=
  String.toList_append

/-- The file for the generated code. It is called by the name without underscores before it. -/
def file (i : Identifier) : String :=
  String.ofList ((upperCamel i.base.toList).dropWhile (· == '_')) ++ "+Generated.rs"

end Identifier

end IconCode.Naming

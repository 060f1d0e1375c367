import IconCode.Markup.Event

/-!
# Attributes in order

The attributes of a tag are a set with names for its keys: of several with one name the last counts,
and they are looked at in the order of their names.
-/

namespace IconCode.Reader

open Markup (Attribute)

/-- A sorted list with an attribute more; one of the same name gives way. -/
def insert (a : Attribute) : List Attribute → List Attribute
  | [] => [a]
  | b :: rest =>
    if a.name < b.name then a :: b :: rest
    else if a.name = b.name then a :: rest
    else b :: insert a rest

/-- The attributes that count, by name. -/
def ordered (attributes : List Attribute) : List Attribute :=
  attributes.foldl (fun sorted a => insert a sorted) []

end IconCode.Reader

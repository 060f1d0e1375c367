/-!
# Entities
-/

namespace IconCode.Markup.Entity

/-- The predefined entities and their characters. The ampersand is last, so that what it stands for
is not taken for the beginning of another entity. -/
def predefined : List (List Char × Char) := [
  (['&', 'l', 't', ';'], '<'),
  (['&', 'g', 't', ';'], '>'),
  (['&', 'q', 'u', 'o', 't', ';'], '"'),
  (['&', 'a', 'p', 'o', 's', ';'], '\''),
  (['&', 'a', 'm', 'p', ';'], '&')]

/-- The text with a character for every occurrence of a name, where `skip` characters of the last
occurrence are still to be passed over. -/
def replaceFrom (name : List Char) (c : Char) : Nat → List Char → List Char
  | _, [] => []
  | skip + 1, _ :: s => replaceFrom name c skip s
  | 0, d :: s =>
    if name.isPrefixOf (d :: s) then c :: replaceFrom name c (name.length - 1) s
    else d :: replaceFrom name c 0 s

/-- The text with a character for every occurrence of a name. -/
def replace (name : List Char) (c : Char) (s : List Char) : List Char := replaceFrom name c 0 s

/-- The text with every predefined entity replaced, one entity after the other. -/
def decode (s : List Char) : List Char :=
  predefined.foldl (fun s entity => replace entity.1 entity.2 s) s

end IconCode.Markup.Entity

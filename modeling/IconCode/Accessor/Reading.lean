import IconCode.Accessor.Code
import IconCode.Figure.Reading

/-!
# Reading accessors

The accessor that tokens are the code of, if they are that of any, and its code as text.
-/

namespace IconCode

open Code (Token Formatter)
open Code.Token

def Transform.read (ts : List Token) : Transform :=
  match numbersIn (inner (after "from_scale" ts)) with
  | [width, height] =>
    let shift :=
      match numbersIn (inner (after "pre_translate" ts)) with
      | [x, y] => some ⟨x, y⟩
      | _ => none
    .scale width height shift
  | _ => .identity

namespace Accessor

/-- The name whose cache is called by a text. -/
def nameOfCache (s : String) : Naming.Identifier :=
  ⟨String.ofList (s.toList.take (s.toList.length - 5))⟩

/-- The number of pixels before the name of its type. -/
def pixelsOf (s : String) : Nat := Nat.ofDigitChars 10 (s.toList.takeWhile Char.isDigit) 0

/-- The width and the height in the first statement of the body, with the caller's size before them
or not. -/
def sides (body : List Token) : List Token :=
  match after "=" body with
  | .group _ inside :: _ => inside
  | ts => inner (inner (after "unwrap_or" ts))

/-- The accessor that is read off tokens, whatever else they say. -/
def read (ts : List Token) : Accessor :=
  let body := lastInner ts
  let drawing := after "transform" body
  { name := nameOfCache (word (after "static" ts))
    sizeInCacheKey := (inner (after "fn" ts).tail).any (isAtom "size")
    visibility := if (before "fn" ts).getLast?.any isGroup then .crate else .everywhere
    width := pixelsOf (word (sides body))
    height := pixelsOf (word ((sides body).drop 2))
    transform := .read (before ";" drawing)
    figures := Figure.readAll (after ";" drawing) }

/-- The accessor with these tokens. -/
def ofTokens? (ts : List Token) : Option Accessor :=
  if (read ts).tokens = ts then some (read ts) else none

end Accessor

/-- The layout of accessors. Other tokens are refused. -/
def layout : Formatter := fun ts =>
  match Accessor.ofTokens? ts with
  | some a => .ok a.source
  | none => .error "not the tokens of an accessor"

end IconCode

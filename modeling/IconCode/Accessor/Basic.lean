import IconCode.Decimal.Exact
import IconCode.Figure.Lower
import IconCode.Naming.Identifier

/-!
# Accessors

The code for a document is a function that draws it on first use and afterwards finds it in a cache.
-/

namespace IconCode

open Decimal (Hundredths)

/-- Who may use the accessor. -/
inductive Visibility where
  | everywhere
  | crate
deriving DecidableEq, Repr

/-- What can be chosen about the code. -/
structure Options where
  /-- The caller chooses the size, and there is a picture in the cache for each. -/
  sizeInCacheKey : Bool := true
  visibility : Visibility := .everywhere
  /-- The code begins with a comment that says where it comes from. -/
  header : Bool := true
deriving DecidableEq, Repr

/-- How the plane is mapped to the picture. -/
inductive Transform where
  | identity
  /-- The sides of the view box that the width and the height are divided by, and a shift
  before that. -/
  | scale (width height : Hundredths) (shift : Option (Point Hundredths))
deriving DecidableEq

/-- The transform of a view box. One without an area is not scaled, and one at the origin is not
moved. -/
def Transform.ofViewBox (r : Rect Float) : Transform :=
  if r.width ≤ 0.0 || r.height ≤ 0.0 then .identity
  else
    let shift : Option (Point Hundredths) :=
      if r.x == 0.0 && r.y == 0.0 then none else some ⟨.ofFloat (-r.x), .ofFloat (-r.y)⟩
    .scale (.ofFloat r.width) (.ofFloat r.height) shift

/-- The parts of the code that depend on the document and the options. -/
structure Accessor where
  name : Naming.Identifier
  sizeInCacheKey : Bool
  visibility : Visibility
  width : Nat
  height : Nat
  transform : Transform
  figures : List Figure

namespace Accessor

/-- The accessor of a document. -/
def ofDocument (d : Document) (options : Options) : Except DrawError Accessor :=
  match Naming.Identifier.ofTitle? d.title with
  | none => .error .invalidTitle
  | some name =>
    match Figure.ofElements d.children with
    | .error e => .error e
    | .ok figures =>
      .ok
        { name
          sizeInCacheKey := options.sizeInCacheKey
          visibility := options.visibility
          width := Decimal.wholePixels d.size.width
          height := Decimal.wholePixels d.size.height
          transform := .ofViewBox d.viewBox
          figures }

end Accessor

end IconCode

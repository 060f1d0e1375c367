import IconCode.Paint.Block
import IconCode.Reader.Attributes

/-!
# Paint attributes

Paint is declared by an attribute for each property and by a block in the attribute `style`. The
block counts more, in whatever order the attributes come.

* `declare?_eq_none`: attributes of other names declare nothing.
-/

namespace IconCode.Reader

open Markup (Attribute)

/-- The style with what an attribute declares, or nothing if the attribute is not about paint. A
property's own attribute goes underneath what is already there, a block on top of it. -/
def declare? (style : Style) (a : Attribute) : Option (Outcome Style) :=
  match Property.ofName? a.name with
  | some p => some do
    let declared ← Outcome.ofExcept (p.declare a.value.toList)
    pure (declared.merge style)
  | none =>
    if a.name = "style" then some do
      let block ← Style.ofBlock a.value.toList
      pure (style.merge block)
    else none

theorem declare?_eq_none {style : Style} {a : Attribute} (hp : Property.ofName? a.name = none)
    (hs : a.name ≠ "style") : declare? style a = none := by
  simp [declare?, hp, hs]

/-- Attributes that say nothing about the picture and are not reported. -/
def isIgnored (name : String) : Bool :=
  name == "id" || name == "class" || name == "version" || "xmlns".toList.isPrefixOf name.toList

/-- The attributes that an element has of its own: what a value changes in the `σ` that is gathered
from them. -/
abbrev Vocabulary (σ : Type) := String → Option (σ → List Char → Except ReadError σ)

/-- What is gathered after one more attribute: the element's own attributes come first, then paint,
and others are reported. -/
def gather {σ : Type} (element : String) (own : Vocabulary σ) (state : σ × Style) (a : Attribute) :
    Outcome (σ × Style) :=
  match own a.name with
  | some set => do
    let geometry ← Outcome.ofExcept (set state.1 a.value.toList)
    pure (geometry, state.2)
  | none =>
    match declare? state.2 a with
    | some declared => do
      let style ← declared
      pure (state.1, style)
    | none =>
      if isIgnored a.name then pure state
      else do
        Outcome.report (.unknownAttribute element a.name a.value)
        pure state

/-- What the attributes of an element say, in the order of their names. -/
def gatherAll {σ : Type} (element : String) (own : Vocabulary σ) (start : σ)
    (attributes : List Attribute) : Outcome (σ × Style) :=
  (ordered attributes).foldlM (gather element own) (start, .empty)

end IconCode.Reader

import IconCode.Paint.Style
import IconCode.Proofs.Outcome

/-!
# Nearest declarations

Among the styles of an element and of what is around it, every property has the value of the nearest
style that declares it. A style that is resolved step by step from the outside in, with the initial
values put underneath at every step, comes to the same.

* `cascade_eq_nearest`: one more step.
-/

namespace IconCode.Style

/-- Every property as the first of the styles that declare it has it, and else its initial value. -/
def nearest (chain : List Style) : Style where
  fill := (chain.findSome? (·.fill)).or initial.fill
  fillOpacity := (chain.findSome? (·.fillOpacity)).or initial.fillOpacity
  stroke := (chain.findSome? (·.stroke)).or initial.stroke
  strokeWidth := (chain.findSome? (·.strokeWidth)).or initial.strokeWidth
  strokeOpacity := (chain.findSome? (·.strokeOpacity)).or initial.strokeOpacity
  opacity := (chain.findSome? (·.opacity)).or initial.opacity
  fillRule := (chain.findSome? (·.fillRule)).or initial.fillRule

theorem nearest_cons (own : Style) (chain : List Style) :
    nearest (own :: chain) = (nearest chain).merge own := by
  simp only [nearest, merge, findSome?_cons_eq_or, Option.or_assoc]

/-- The initial values never hide a declaration. -/
theorem initial_merge_nearest (chain : List Style) :
    initial.merge (nearest chain) = nearest chain := by
  simp only [nearest, merge, Option.or_assoc, Option.or_self]

theorem initial_merge_eq_nearest_singleton (own : Style) : initial.merge own = nearest [own] := by
  rw [nearest_cons]
  rfl

theorem cascade_eq_nearest {parent : Style} {chain : List Style}
    (h : initial.merge parent = nearest chain) (own : Style) :
    cascade parent own = nearest (own :: chain) := by
  rw [cascade, h, nearest_cons]

end IconCode.Style

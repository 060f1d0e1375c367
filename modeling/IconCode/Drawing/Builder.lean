import IconCode.Drawing.Element

/-!
# Building drawings

A drawing is built from the outside in: elements are added to the group opened last, or to the
document if there is none, and a group is attached to its parent when it is closed.
-/

namespace IconCode

/-- A document and the groups opened in it, the innermost first. -/
structure Builder where
  root : Document := {}
  groups : List Layer := []

namespace Builder

/-- Where elements are added. -/
def parent (b : Builder) : Layer := b.groups.headD b.root.toLayer

/-- The builder with another parent. -/
def onParent (f : Layer → Layer) (b : Builder) : Builder :=
  match b.groups with
  | [] => { b with root := { b.root with toLayer := f b.root.toLayer } }
  | g :: gs => { b with groups := f g :: gs }

def push (b : Builder) (e : Element) : Builder := b.onParent (·.push e)

def append (b : Builder) (e : Element) : Builder := b.onParent (·.append e)

/-- A new empty group that inherits from the parent and declares `own`. -/
def openGroup (b : Builder) (own : Style) : Builder :=
  { b with groups := { style := b.parent.resolve own } :: b.groups }

/-- The innermost group, and the builder without it. -/
def takeGroup? (b : Builder) : Option (Layer × Builder) :=
  match b.groups with
  | [] => none
  | g :: gs => some (g, { b with groups := gs })

/-- Closes the innermost group and attaches it to its parent. -/
def closeGroup? (attach : Builder → Element → Builder) (b : Builder) : Option Builder :=
  b.takeGroup?.map fun (g, b) => attach b g.toElement

end Builder

end IconCode

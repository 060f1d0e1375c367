import IconCode.Markup.Event

/-!
# Trees of elements

Tags that match each other make up trees. A tree can be written in more than one way: between its
tags there may be text, comments, declarations and instructions, and an element without content may
be one empty tag or an opening tag with its closing tag.

* `written_events`: every tree has a writing.
* `Written.append`: writings of two sequences of trees, one after the other.
* `Written.not_malformed`: nothing malformed is part of a writing.
-/

namespace IconCode.Markup

/-- An element and the elements inside it. -/
inductive TagTree where
  | node (name : String) (attributes : List Attribute) (children : List TagTree)

namespace TagTree

def name : TagTree → String
  | node name _ _ => name

def attributes : TagTree → List Attribute
  | node _ attributes _ => attributes

def children : TagTree → List TagTree
  | node _ _ children => children

end TagTree

/-- Whether an event is neither a tag nor malformed. -/
def Event.isAside : Event → Bool
  | .text _ | .comment | .declaration | .instruction => true
  | .tag _ | .malformed .. => false

/-! ## Writings -/

/-- The events that write trees one after the other. What a closing tag has besides its name does
not matter. -/
inductive Written : List TagTree → List Event → Prop where
  | nil : Written [] []
  | aside {trees : List TagTree} {events : List Event} {e : Event} (h : e.isAside = true)
      (rest : Written trees events) : Written trees (e :: events)
  | empty {name : String} {attributes : List Attribute} {trees : List TagTree} {events : List Event}
      (rest : Written trees events) :
      Written (.node name attributes [] :: trees) (.tag ⟨.empty, name, attributes⟩ :: events)
  | element {name : String} {attributes ignored : List Attribute} {children trees : List TagTree}
      {inside events : List Event} (content : Written children inside)
      (rest : Written trees events) :
      Written (.node name attributes children :: trees)
        (.tag ⟨.opening, name, attributes⟩ :: (inside ++ .tag ⟨.closing, name, ignored⟩ :: events))

namespace Written

theorem append {trees others : List TagTree} {events more : List Event} (h : Written trees events)
    (h' : Written others more) : Written (trees ++ others) (events ++ more) := by
  induction h with
  | nil => exact h'
  | aside ha _ ih => exact .aside ha ih
  | empty _ ih => exact .empty ih
  | @element name attributes ignored children trees inside events content _ _ ih =>
    have hw : Written (.node name attributes children :: (trees ++ others))
        (.tag ⟨.opening, name, attributes⟩ ::
          (inside ++ .tag ⟨.closing, name, ignored⟩ :: (events ++ more))) := .element content ih
    simpa using hw

theorem single_aside {e : Event} (h : e.isAside = true) : Written [] [e] := .aside h .nil

theorem single_empty (name : String) (attributes : List Attribute) :
    Written [.node name attributes []] [.tag ⟨.empty, name, attributes⟩] := .empty .nil

theorem single {children : List TagTree} {inside : List Event} (name : String)
    (attributes ignored : List Attribute) (h : Written children inside) :
    Written [.node name attributes children]
      (.tag ⟨.opening, name, attributes⟩ :: (inside ++ [.tag ⟨.closing, name, ignored⟩])) :=
  .element h .nil

theorem not_malformed {trees : List TagTree} {events : List Event} (h : Written trees events)
    (fault : MarkupFault) (position : Text.Position) : .malformed fault position ∉ events := by
  induction h with
  | nil => simp
  | @aside _ _ e ha _ ih =>
    rw [List.mem_cons, not_or]
    refine ⟨?_, ih⟩
    rintro rfl
    cases ha
  | empty _ ih => simpa using ih
  | element _ _ ihc ih => simp [ihc, ih]

end Written

/-! ## Every tree can be written -/

mutual

/-- The events of a tree with both tags of every element and nothing else. -/
def TagTree.events : TagTree → List Event
  | .node name attributes children =>
    .tag ⟨.opening, name, attributes⟩ :: (eventsAll children ++ [.tag ⟨.closing, name, []⟩])

def TagTree.eventsAll : List TagTree → List Event
  | [] => []
  | t :: ts => t.events ++ eventsAll ts

end

mutual

theorem written_events : ∀ t : TagTree, Written [t] t.events
  | .node name attributes children => by
    rw [TagTree.events]
    exact .single name attributes [] (written_eventsAll children)

theorem written_eventsAll : ∀ ts : List TagTree, Written ts (TagTree.eventsAll ts)
  | [] => .nil
  | t :: ts => by
    rw [TagTree.eventsAll]
    exact (written_events t).append (written_eventsAll ts)

end

end IconCode.Markup

import RecordFilter.Filter.Comparator

/-!
# Filter trees

A filter is a tree of alternatives and conjunctions over comparisons. A tree read from text has an
alternative at its root, conjunctions below it, and comparisons or further alternatives below
these; the type allows any nesting. The filter without comparisons is the alternative of nothing,
which lets everything pass.

`traverse` runs an action on the leaves of a tree from left to right and keeps its shape.
-/

namespace RecordFilter.Filter

/-- A tree of alternatives and conjunctions with leaves of type `α`. -/
inductive Node (α : Type) where
  | or (children : List (Node α))
  | and (children : List (Node α))
  | leaf (value : α)

/-- A place in a filter text: byte offsets of its beginning and end, and the line and column of
the beginning, both from 1. -/
structure Span where
  start : Nat
  stop : Nat
  line : Nat
  column : Nat
  deriving DecidableEq, Repr

/-- An argument as it is written; quotes are part of the text. -/
inductive Literal where
  | quoted (text : String)
  | number (text : String)
  | date (text : String)
  | bare (text : String)
  deriving DecidableEq, Repr

/-- The text of an argument. -/
def Literal.text : Literal → String
  | quoted text | number text | date text | bare text => text

/-- The name of an argument's form in a JSON document. -/
def Literal.formName : Literal → String
  | quoted _ => "quoted_string"
  | number _ => "number"
  | date _ => "date"
  | bare _ => "unquoted"

/-- A selector, a comparator and its arguments. -/
structure Comparison where
  selector : String
  comparator : Comparator
  arguments : List Literal
  span : Span
  deriving DecidableEq, Repr

namespace Node

variable {α β : Type}

mutual

/-- The leaves from left to right. -/
def leaves : Node α → List α
  | or children => leavesOf children
  | and children => leavesOf children
  | leaf a => [a]

/-- The leaves of several trees in turn. -/
def leavesOf : List (Node α) → List α
  | [] => []
  | t :: rest => t.leaves ++ leavesOf rest

end

mutual

/-- The tree with an action run on every leaf, from left to right. -/
def traverse {m : Type → Type} [Monad m] (f : α → m β) : Node α → m (Node β)
  | or children => return or (← traverseAll f children)
  | and children => return and (← traverseAll f children)
  | leaf a => return leaf (← f a)

/-- Several trees in turn with an action run on every leaf. -/
def traverseAll {m : Type → Type} [Monad m] (f : α → m β) :
    List (Node α) → m (List (Node β))
  | [] => return []
  | t :: rest => return (← t.traverse f) :: (← traverseAll f rest)

end

end Node

end RecordFilter.Filter

namespace RecordFilter

/-- A filter. -/
abbrev Filter := Filter.Node Filter.Comparison

namespace Filter

/-- The filter that lets everything pass. -/
def unrestricted : Filter := .or []

/-- The comparisons in the order of the text. -/
def comparisons (f : Filter) : List Comparison := f.leaves

end Filter

end RecordFilter

import RecordFilter.Filter.Node
import RecordFilter.Json.Raw

/-!
# Filters as JSON documents

A filter tree as a document: every node tells its kind, alternatives and conjunctions have their
children, and comparisons their parts and their place in the text.
-/

namespace RecordFilter.Filter

open Json

/-- The document of an argument. -/
def Literal.toRaw (l : Literal) : Raw :=
  .ofMembers [("kind", .text l.formName), ("text", .text l.text)]

/-- The document of a place. -/
def Span.toRaw (s : Span) : Raw :=
  .ofMembers [("start", .nat s.start), ("end", .nat s.stop), ("line", .nat s.line),
    ("column", .nat s.column)]

/-- The document of a comparison. -/
def Comparison.toRaw (c : Comparison) : Raw :=
  .ofMembers [("kind", .text "comparison"), ("selector", .text c.selector),
    ("comparator", .text c.comparator.name), ("arguments", .array (c.arguments.map Literal.toRaw)),
    ("span", c.span.toRaw)]

/-- The document of a node with children. -/
def branch (kind : String) (children : List Raw) : Raw :=
  .ofMembers [("kind", .text kind), ("children", .array children)]

mutual

/-- The document of a filter. -/
def toRaw : Filter → Raw
  | .or children => branch "or" (toRaws children)
  | .and children => branch "and" (toRaws children)
  | .leaf c => c.toRaw

/-- The documents of several filters. -/
def toRaws : List Filter → List Raw
  | [] => []
  | f :: rest => toRaw f :: toRaws rest

end

end RecordFilter.Filter

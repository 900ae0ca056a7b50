import RecordFilter.Coercion
import RecordFilter.Filter.Reader
import RecordFilter.Like
import RecordFilter.Predicate
import RecordFilter.Resolver
import RecordFilter.Schema.Registry

/-!
# Compiling filters

A filter becomes a predicate over the properties of an entity. Every comparison is compiled by
itself, from left to right, and the first one that cannot be compiled is the error of the whole;
the predicates of the comparisons are then joined in the shape of the tree.

The ways in which selectors are resolved and patterns are reduced are parameters, so that the same
compiler works with and without a memory of what has been resolved. Reducing a pattern takes markers
from those that are still to come.
-/

namespace RecordFilter

open RecordFilter.Filter

/-- Why a filter cannot be compiled. -/
inductive CompileError where
  | text (e : SyntaxError)
  | unknownEntity (name : String)
  | propertyNotFound (entity selector : String) (span : Span)
  | notEnoughArguments (selector : String) (comparator : Comparator) (span : Span)
  | tooManyArguments (selector : String) (comparator : Comparator) (count : Nat) (span : Span)
  | comparatorNotForKind (selector : String) (comparator : Comparator) (kind : Kind)
      (span : Span)
  | unknownComparator (token : String) (span : Span)
  | invalidValue (selector : String) (comparator : Comparator) (literal : String) (kind : Kind)
      (span : Span)
  deriving DecidableEq, Repr

namespace CompileError

/-- The place of the comparison that cannot be compiled. -/
def span? : CompileError → Option Span
  | text _ | unknownEntity _ => none
  | propertyNotFound _ _ span | notEnoughArguments _ _ span | tooManyArguments _ _ _ span
  | comparatorNotForKind _ _ _ span | unknownComparator _ span | invalidValue _ _ _ _ span =>
    some span

/-- A place in a message. -/
def place (span : Span) : String := s!"(line {span.line}, column {span.column})"

/-- The message of an error. -/
def message : CompileError → String
  | text e => e.message
  | unknownEntity name => s!"Unknown entity: {name}"
  | propertyNotFound entity selector span =>
    s!"Property '{selector}' not found on '{entity}' {place span}"
  | notEnoughArguments selector comparator span =>
    s!"Not enough arguments for '{selector}{comparator.spelling}' {place span}"
  | tooManyArguments selector comparator count span =>
    s!"Too many arguments ({count}) for '{selector}{comparator.spelling}' {place span}"
  | comparatorNotForKind selector comparator kind span =>
    s!"Comparator '{comparator.spelling}' cannot be applied to '{selector}' of type {kind.name} " ++
      place span
  | unknownComparator token span => s!"Unknown comparator '{token}' {place span}"
  | invalidValue selector comparator literal kind span =>
    s!"Invalid value '{literal}' for '{selector}{comparator.spelling}', expected {kind.name} " ++
      place span

/-- A syntax error as an error of compiling; an unknown comparator is one of its own. -/
def ofSyntaxError : SyntaxError → CompileError
  | .unknownComparator token span => unknownComparator token span
  | e => text e

end CompileError

namespace Filter.Comparison

/-! ## Arguments -/

/-- The values of the arguments for a property; a kind without arguments has none. -/
def values (c : Comparison) (p : Property) : Except CompileError (List Value) :=
  match coerce p.kind c.arguments with
  | .ok (some values) => .ok values
  | .ok none => .ok []
  | .error e => .error (.invalidValue c.selector c.comparator e.literal e.target c.span)

/-- The value of the only argument for a property. -/
def value (c : Comparison) (p : Property) : Except CompileError Value := do
  match ← c.values p with
  | [] => .error (.notEnoughArguments c.selector c.comparator c.span)
  | [v] => .ok v
  | vs => .error (.tooManyArguments c.selector c.comparator vs.length c.span)

/-- The values of the arguments for a property, at least one. -/
def someValues (c : Comparison) (p : Property) : Except CompileError (List Value) := do
  match ← c.values p with
  | [] => .error (.notEnoughArguments c.selector c.comparator c.span)
  | vs => .ok vs

/-- That the comparator may be applied to a property. -/
def require (c : Comparison) (p : Property) (allowed : Bool) : Except CompileError Unit :=
  if allowed then .ok ()
  else .error (.comparatorNotForKind c.selector c.comparator p.kind c.span)

/-! ## Single comparisons -/

/-- The comparison of a property with the only argument. -/
def relate (c : Comparison) (p : Property) (r : Relation) : Except CompileError Predicate := do
  return .compare p.name r (← c.value p)

/-- The comparison of an ordered property with the only argument. -/
def order (c : Comparison) (p : Property) (r : Relation) : Except CompileError Predicate := do
  c.require p p.kind.isOrdered
  c.relate p r

/-- The pattern that is the only argument for a property. -/
def pattern (c : Comparison) (p : Property) : Except CompileError (List Char) := do
  match ← c.value p with
  | .string s => .ok s.toList
  | v => .error (.invalidValue c.selector c.comparator (toString v) p.kind c.span)

variable {m : Type → Type} [Monad m]

/-- The predicate of a comparison whose selector stands for the property, with a given way to reduce
patterns. -/
def compileFor (reduce : List Char → m Like) (c : Comparison) (p : Property) :
    ExceptT CompileError m Predicate :=
  match c.comparator with
  | .eq => c.relate p .eq
  | .neq => c.relate p .neq
  | .lt => c.order p .lt
  | .le => c.order p .le
  | .gt => c.order p .gt
  | .ge => c.order p .ge
  | .isNull => do
    c.require p p.acceptsNull
    return .isNull p.name
  | .notNull => do
    c.require p p.acceptsNull
    return .not (.isNull p.name)
  | .isTrue => do
    c.require p (p.kind = .bool)
    return .compare p.name .eq (.bool true)
  | .isFalse => do
    c.require p (p.kind = .bool)
    return .compare p.name .eq (.bool false)
  | .like => do
    c.require p (p.kind = .string)
    let pattern ← c.pattern p
    return .like p.name (← reduce pattern)
  | .within => return .within p.name (← c.someValues p)
  | .without => return .not (.within p.name (← c.someValues p))

/-- The predicate of a comparison, with given ways to resolve its selector and to reduce its
pattern. -/
def compile (resolve : String → m (Except PropertyNotFound Property))
    (reduce : List Char → m Like) (c : Comparison) : ExceptT CompileError m Predicate := do
  match ← resolve c.selector with
  | .ok p => c.compileFor reduce p
  | .error missing => throw (.propertyNotFound missing.entity missing.selector c.span)

end Filter.Comparison

/-! ## Trees -/

namespace Predicate

/-- The predicates joined from the left; none of them lets everything pass. -/
def joinAll (join : Predicate → Predicate → Predicate) : List Predicate → Predicate
  | [] => const true
  | p :: ps => ps.foldl join p

mutual

/-- The predicate of a tree of predicates. -/
def ofNode : Node Predicate → Predicate
  | .or children => joinAll or (ofNodes children)
  | .and children => joinAll and (ofNodes children)
  | .leaf p => p

/-- The predicates of several trees. -/
def ofNodes : List (Node Predicate) → List Predicate
  | [] => []
  | t :: rest => ofNode t :: ofNodes rest

end

end Predicate

namespace Filter

/-- The predicate of a filter, with given ways to resolve selectors and to reduce patterns. -/
def compileWith {m : Type → Type} [Monad m]
    (resolve : String → m (Except PropertyNotFound Property)) (reduce : List Char → m Like)
    (f : Filter) : ExceptT CompileError m Predicate := do
  return Predicate.ofNode (← f.traverse (Comparison.compile resolve reduce))

/-- The predicate of a filter on an entity. -/
def compile (f : Filter) (e : Entity) (n : Naming) :
    StateM Like.Draws (Except CompileError Predicate) :=
  (compileWith (fun selector => return e.resolve n selector) Like.ofPattern f).run

end Filter

namespace Registry

/-- The predicate of a filter on a registered entity. -/
def compile (r : Registry) (entity : String) (n : Naming) (f : Filter) :
    StateM Like.Draws (Except CompileError Predicate) :=
  match r.get? entity with
  | some e => f.compile e n
  | none => return .error (.unknownEntity entity)

/-- The predicate of a filter text on a registered entity; the text is read first. -/
def compileText (r : Registry) (entity : String) (n : Naming) (text : String) :
    StateM Like.Draws (Except CompileError Predicate) :=
  match Filter.read text with
  | .ok f => r.compile entity n f
  | .error e => return .error (.ofSyntaxError e)

end Registry

end RecordFilter

import RecordFilter.Naming
import RecordFilter.Schema.Entity
import RecordFilter.Table

/-!
# Resolving selectors

A selector is resolved to the property whose name is exactly the one that the naming convention
makes of it. A `Resolver` remembers the properties it has found, by entity and property name;
selectors that resolve to nothing are not remembered.
-/

namespace RecordFilter

/-- No property of an entity has the name that a selector stands for. -/
structure PropertyNotFound where
  entity : String
  selector : String
  deriving DecidableEq, Repr

/-- The message of the error. -/
def PropertyNotFound.message (e : PropertyNotFound) : String :=
  s!"Property '{e.selector}' not found on '{e.entity}'"

/-- The property of an entity that a selector stands for. -/
def Entity.resolve (e : Entity) (n : Naming) (selector : String) :
    Except PropertyNotFound Property :=
  match e.property? (n.propertyName selector) with
  | some p => .ok p
  | none => .error ⟨e.name, selector⟩

/-- The properties found so far, by the name of the entity and the name of the property. -/
structure Resolver where
  found : Table (String × String) Property

namespace Resolver

/-- A resolver that has found nothing yet. -/
def empty : Resolver := ⟨.empty⟩

/-- The number of properties found so far. -/
def size (r : Resolver) : Nat := r.found.size

/-- The property of an entity that a selector stands for, from memory if it is there. -/
def resolve (r : Resolver) (e : Entity) (n : Naming) (selector : String) :
    Except PropertyNotFound Property × Resolver :=
  let key := (e.name, n.propertyName selector)
  match r.found.get? key with
  | some p => (.ok p, r)
  | none =>
    match e.resolve n selector with
    | .ok p => (.ok p, ⟨r.found.insert key p⟩)
    | .error missing => (.error missing, r)

end Resolver

end RecordFilter

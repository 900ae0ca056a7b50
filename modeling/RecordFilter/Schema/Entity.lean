import RecordFilter.Schema.Kind

/-!
# Entities

An entity is a name and a list of properties, in the order of their declaration and with distinct
names.
-/

namespace RecordFilter

/-- A declared property. -/
structure Property where
  name : String
  kind : Kind
  nullable : Bool := false
  deriving DecidableEq, Repr

/-- A test for absence makes sense. -/
def Property.acceptsNull (p : Property) : Bool := p.nullable || p.kind.isReference

/-- The declaration of an entity. -/
structure Entity where
  name : String
  properties : List Property
  distinct : (properties.map Property.name).Nodup
  deriving DecidableEq

/-- What can be wrong with a schema. -/
inductive SchemaError where
  | duplicateProperty (entity property : String)
  | duplicateEntity (entity : String)
  | document
  deriving DecidableEq, Repr

/-- The message of an error. `reason` is what the reader of JSON says of a document that it cannot
read. -/
def SchemaError.message (reason : String) : SchemaError → String
  | duplicateProperty entity property =>
    s!"Property '{property}' is declared twice on entity '{entity}'"
  | duplicateEntity entity => s!"Entity '{entity}' is already registered"
  | document => s!"Failed to read schema document: {reason}"

/-- The first element that stands in the list before, too. -/
def firstRepeated {α : Type} [DecidableEq α] : List α → List α → Option α
  | _, [] => none
  | seen, x :: rest => if x ∈ seen then some x else firstRepeated (x :: seen) rest

/-- No element stands twice exactly when there is no first repeated one. -/
theorem firstRepeated_eq_none {α : Type} [DecidableEq α] (seen xs : List α) :
    firstRepeated seen xs = none ↔ xs.Nodup ∧ ∀ x ∈ xs, x ∉ seen := by
  induction xs generalizing seen with
  | nil => simp [firstRepeated]
  | cons x rest ih => grind [firstRepeated, List.nodup_cons]

namespace Entity

/-- The entity with these properties, or the first property whose name is taken. -/
def ofProperties (name : String) (properties : List Property) : Except SchemaError Entity :=
  match h : firstRepeated [] (properties.map Property.name) with
  | some property => .error (.duplicateProperty name property)
  | none => .ok ⟨name, properties, ((firstRepeated_eq_none _ _).1 h).1⟩

/-- The property with exactly this name. -/
def property? (e : Entity) (name : String) : Option Property :=
  e.properties.find? (·.name = name)

end Entity

/-- A type of records that brings its own declaration, which is checked when it is registered. -/
structure TypedEntity where
  name : String
  properties : List Property

/-- The entity that a type of records declares. -/
def TypedEntity.entity (t : TypedEntity) : Except SchemaError Entity :=
  Entity.ofProperties t.name t.properties

end RecordFilter

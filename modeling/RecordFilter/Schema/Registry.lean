import RecordFilter.Schema.Entity
import RecordFilter.Json.Fields
import RecordFilter.Json.Raw.Reader

/-!
# Registries

The entities that are known, with distinct names. Registering adds an entity and never replaces
one. A registry can be read from a JSON document, whose entities are registered one after another.
-/

namespace RecordFilter

open Json

/-- Entities with distinct names. -/
structure Registry where
  entities : List Entity
  distinct : (entities.map Entity.name).Nodup

namespace Registry

/-- No entities. -/
def empty : Registry := ⟨[], .nil⟩

/-- The entity with this name. -/
def get? (r : Registry) (name : String) : Option Entity := r.entities.find? (·.name = name)

/-- The registry with one more entity; its name must be free. -/
def register (r : Registry) (e : Entity) : Except SchemaError Registry :=
  if h : e.name ∈ r.entities.map Entity.name then .error (.duplicateEntity e.name)
  else .ok ⟨r.entities ++ [e], by
    rw [List.map_append, List.nodup_append]
    exact ⟨r.distinct, by simp, by grind⟩⟩

/-- The registry with the entity of a name and properties, if these make an entity. -/
def add (r : Registry) (d : String × List Property) : Except SchemaError Registry := do
  r.register (← Entity.ofProperties d.1 d.2)

/-- The registry with the entity of a type of records. -/
def registerType (r : Registry) (t : TypedEntity) : Except SchemaError Registry := do
  r.register (← t.entity)

/-- The number of entities. -/
def size (r : Registry) : Nat := r.entities.length

/-- The names of the entities, in the order of the alphabet. -/
def names (r : Registry) : List String :=
  (r.entities.map Entity.name).mergeSort (· ≤ ·)

/-! ## Documents -/

/-- A property: `name`, `type` and, unless it is false, `nullable`. -/
def propertyOf? (r : Raw) : Option Property :=
  match fields ["name", "type", "nullable"] r with
  | some [some name, some type, nullable] => do
    let name ← stringOf? name
    let type ← stringOf? type
    let nullable ← orDefault false boolOf? nullable
    some { name, kind := Kind.ofTypeName type, nullable }
  | _ => none

/-- An entity: `name` and `properties`, which may still share names. -/
def entityOf? (r : Raw) : Option (String × List Property) := do
  let (name, properties) ← pairFields "name" "properties" r
  let name ← stringOf? name
  let properties ← listOf? propertyOf? properties
  some (name, properties)

/-- A document: one field, `entities`. -/
def documentOf? (r : Raw) : Option (List (String × List Property)) :=
  match fields ["entities"] r with
  | some [some entities] => listOf? entityOf? entities
  | _ => none

/-- The registry with these entities added in turn, or the error of the first that cannot be. -/
def registerAll (r : Registry) (entities : List (String × List Property)) :
    Except SchemaError Registry :=
  entities.foldlM add r

/-- The registry that a JSON document describes. -/
def read (s : List Char) : Except SchemaError Registry :=
  match (Raw.read s).bind documentOf? with
  | some entities => empty.registerAll entities
  | none => .error .document

end Registry

end RecordFilter

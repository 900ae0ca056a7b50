import RecordFilter.Schema.Entity
import RecordFilter.Value.OfJson
import RecordFilter.Value.Order

/-!
# Records

A record holds the values of one instance of an entity. It is read from a JSON object by the
entity's declaration: one value for each property, in the order of the properties. Members of the
object that the entity does not declare are left out.
-/

namespace RecordFilter

/-- A named value. -/
structure Field where
  name : String
  value : Value

/-- The values of one instance of an entity. -/
structure Record where
  entity : String
  fields : List Field

namespace Record

/-- The value of a field; of several with one name the first counts, and a missing one is
absent. -/
def get (r : Record) (name : String) : Value :=
  match r.fields.find? (·.name = name) with
  | some f => f.value
  | none => .null

/-- Why a document is no record of an entity. -/
inductive ReadError where
  | notAnObject (entity : String)
  | field (entity property : String) (cause : Value.ReadError)

/-- The message of an error. -/
def ReadError.message : ReadError → String
  | notAnObject entity => s!"Expected a JSON object for entity '{entity}'"
  | field entity property cause =>
    s!"Invalid value for '{entity}.{property}': {cause.message}"

/-- The field of one property of an entity, from the members of an object. -/
def fieldOfJson (entity : String) (members : List (String × Json)) (p : Property) :
    Except ReadError Field :=
  match Json.member? p.name members with
  | none => .ok ⟨p.name, .null⟩
  | some j =>
    match Value.ofJson p.kind j with
    | .ok v => .ok ⟨p.name, v⟩
    | .error cause => .error (.field entity p.name cause)

/-- The record of an entity that a document is. -/
def ofJson (e : Entity) : Json → Except ReadError Record
  | .object members => do
    let fields ← e.properties.mapM (fieldOfJson e.name members)
    .ok ⟨e.name, fields⟩
  | _ => .error (.notAnObject e.name)

/-- The fields are the same one by one, names and values. -/
def sameFields : List Field → List Field → Bool
  | [], [] => true
  | a :: as, b :: bs => a.name == b.name && a.value.same b.value && sameFields as bs
  | _, _ => false

/-- The two records are of one entity and have the same fields. -/
def same (a b : Record) : Bool := a.entity == b.entity && sameFields a.fields b.fields

end Record

end RecordFilter

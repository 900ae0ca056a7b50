import RecordFilter.Json.Fields
import RecordFilter.Record.Basic

/-!
# Records as JSON documents

A record keeps the kinds of its values in its document: every value stands under the name of its
kind, decimals and points in time as texts, and an absent value is the one text `Null`. Reading the
document gives the record back; a float that is not finite has no number in JSON and is lost.
-/

namespace RecordFilter

open Calendar Json Number

namespace Value

/-! ## Writing -/

/-- A value under the name of its kind. -/
def tagged (tag : String) (r : Raw) : Raw := .ofMembers [(tag, r)]

/-- An integer in a JSON text. -/
def rawInt (n : Int) : Raw := .number (.ofInt n)

/-- The document of a value. -/
def toRaw : Value → Raw
  | int16 n => tagged "Int16" (rawInt n.toInt)
  | int32 n => tagged "Int32" (rawInt n.toInt)
  | int64 n => tagged "Int64" (rawInt n.toInt)
  | float32 x => tagged "Float32" (.ofFloat positionalSingle x)
  | float64 x => tagged "Float64" (.ofFloat positionalDouble x)
  | decimal d => tagged "Decimal" (.text (String.ofList d.write))
  | dateTime t => tagged "DateTime" (.text (String.ofList t.write))
  | string s => tagged "String" (.text s)
  | bool b => tagged "Boolean" (.bool b)
  | json j => tagged "Json" j.toRaw
  | null => .text "Null"

/-! ## Reading -/

/-- An integer of so many bits. -/
def integerOfRaw (bits : Nat) (make : Int → Value) (r : Raw) : Option Value :=
  (integerOf? r).bind fun n => if fitsWord bits n then some (make n) else none

/-- A float; an integer is rounded to the format at once, a double once more. -/
def floatOfRaw {f : Format} : Raw → Option (Binary f)
  | .number n =>
    (Json.Number.ofNumeral n).map fun
      | .integer n => Binary.ofInt n
      | .float x => x.convert
  | _ => none

/-- The value with this tag, whose document may have `depth` levels. -/
def ofTagged (depth : Nat) (tag : String) (r : Raw) : Option Value :=
  match tag with
  | "Int16" => integerOfRaw 16 (fun n => int16 (.ofInt n)) r
  | "Int32" => integerOfRaw 32 (fun n => int32 (.ofInt n)) r
  | "Int64" => integerOfRaw 64 (fun n => int64 (.ofInt n)) r
  | "Float32" => (floatOfRaw r).map float32
  | "Float64" => (floatOfRaw r).map float64
  | "Decimal" => (stringOf? r).bind fun s => (Decimal.read s.toList).map decimal
  | "DateTime" => (stringOf? r).bind fun s => (Timestamp.readLocalTime s.toList).map dateTime
  | "String" => (stringOf? r).map string
  | "Boolean" => (boolOf? r).map bool
  | "Json" => (Json.ofRaw depth r).map json
  | _ => none

/-- The value of a document. -/
def ofRaw (depth : Nat) (r : Raw) : Option Value :=
  match alternative r with
  | some ("Null", none) => some null
  | some ("Null", some .null) => some null
  | some (tag, some r) => ofTagged depth tag r
  | _ => none

end Value

namespace Record

/-- How deep the document of a record goes before the document of one of its values begins. -/
def wrapping : Nat := 4

/-- The document of a field. -/
def fieldToRaw (f : Field) : Raw :=
  .ofMembers [("name", .text f.name), ("value", f.value.toRaw)]

/-- The document of a record. -/
def toRaw (r : Record) : Raw :=
  .ofMembers [("entity", .text r.entity), ("field_values", .array (r.fields.map fieldToRaw))]

/-- The record as a JSON text on one line. -/
def write (r : Record) : List Char := r.toRaw.compact

/-- The field of a document. -/
def fieldOfRaw (r : Raw) : Option Field := do
  let (name, value) ← pairFields "name" "value" r
  let name ← stringOf? name
  let value ← Value.ofRaw (maxDepth - wrapping) value
  some ⟨name, value⟩

/-- The record of a document. -/
def ofRaw (r : Raw) : Option Record := do
  let (entity, fields) ← pairFields "entity" "field_values" r
  let entity ← stringOf? entity
  let fields ← listOf? fieldOfRaw fields
  some ⟨entity, fields⟩

/-- The record of a JSON text. -/
def read (s : List Char) : Option Record := (Raw.read s).bind ofRaw

/-- Reading the written record gives the same record. -/
def readsBack (r : Record) : Bool :=
  match read r.write with
  | some r' => r'.same r
  | none => false

end Record

end RecordFilter

import RecordFilter.Calendar.Timestamp
import RecordFilter.Value.Basic

/-!
# Values from JSON documents

Reading of a JSON document as a value of a declared kind. `null` is an absent value of every kind,
and a complex type takes every document as it is.
-/

namespace RecordFilter.Value

open Calendar Number

/-- Why a document is no value of a kind. -/
inductive ReadError where
  | typeMismatch (expected : Kind) (found : Json)
  | outOfRange (expected : Kind) (found : Json)

/-- The message of an error. -/
def ReadError.message : ReadError → String
  | typeMismatch expected found =>
    s!"Cannot read {String.ofList found.write} as {expected.name}"
  | outOfRange expected found =>
    s!"Value '{String.ofList found.write}' is out of range for {expected.name}"

/-! ## Views of documents -/

/-- A document as an integer within a signed word. -/
def jsonInt? : Json → Option Int
  | .number n => n.toInt?
  | _ => none

/-- A document as the nearest double. -/
def jsonDouble? : Json → Option Double
  | .number n => some n.toDouble
  | _ => none

/-- A document as a text. -/
def jsonText? : Json → Option String
  | .string s => some s
  | _ => none

/-- A document as a truth value. -/
def jsonBool? : Json → Option Bool
  | .bool b => some b
  | _ => none

/-- A document as a decimal: a number through its written form, or a text. -/
def jsonDecimal? : Json → Option Decimal
  | .number n => Decimal.read n.toRaw.compact
  | .string s => Decimal.read s.toList
  | _ => none

/-- A document as a point in time. -/
def jsonDateTime? (j : Json) : Option DateTime :=
  (jsonText? j).bind fun s => Timestamp.read s.toList

/-! ## Reading -/

/-- The value, or that the document has the wrong type. -/
def orMismatch (kind : Kind) (j : Json) : Option Value → Except ReadError Value
  | some v => .ok v
  | none => .error (.typeMismatch kind j)

/-- The integer of so many bits that a document is. -/
def integerOfJson (kind : Kind) (bits : Nat) (make : Int → Value) (j : Json) :
    Except ReadError Value :=
  match jsonInt? j with
  | none => .error (.typeMismatch kind j)
  | some n =>
    if fitsWord bits n then .ok (make n) else .error (.outOfRange kind j)

/-- The value of a kind that a document is. -/
def ofJson (kind : Kind) (j : Json) : Except ReadError Value :=
  match j with
  | .null => .ok null
  | j =>
    match kind with
    | .string => orMismatch kind j ((jsonText? j).map string)
    | .bool => orMismatch kind j ((jsonBool? j).map bool)
    | .int16 => integerOfJson kind 16 (fun n => int16 (.ofInt n)) j
    | .int32 => integerOfJson kind 32 (fun n => int32 (.ofInt n)) j
    | .int64 => integerOfJson kind 64 (fun n => int64 (.ofInt n)) j
    | .float32 => orMismatch kind j ((jsonDouble? j).map fun x => float32 x.convert)
    | .float64 => orMismatch kind j ((jsonDouble? j).map float64)
    | .decimal => orMismatch kind j ((jsonDecimal? j).map decimal)
    | .dateTime => orMismatch kind j ((jsonDateTime? j).map dateTime)
    | .other => .ok (json j)

end RecordFilter.Value

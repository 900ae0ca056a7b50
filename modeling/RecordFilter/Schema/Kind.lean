import RecordFilter.Text.Blank

/-!
# Kinds

The declared type of a property. A schema names it by one of several words, in any letter case and
with blanks around it; every other word is a complex type, about which nothing more is known.
-/

namespace RecordFilter

/-- The declared type of a property. -/
inductive Kind where
  | string
  | int16
  | int32
  | int64
  | float32
  | float64
  | decimal
  | dateTime
  | bool
  | other
  deriving DecidableEq, Repr

namespace Kind

/-- The words for each kind; the complex types have none of their own. -/
def words : List (Kind × List String) := [
  (string, ["string", "str", "text", "varchar", "char"]),
  (int16, ["int16", "i16", "short", "smallint"]),
  (int32, ["int32", "i32", "int", "integer"]),
  (int64, ["int64", "i64", "long", "bigint"]),
  (float32, ["float32", "f32", "float", "single", "real"]),
  (float64, ["float64", "f64", "double"]),
  (decimal, ["decimal", "numeric", "money"]),
  (dateTime, ["datetime", "timestamp", "date"]),
  (bool, ["bool", "boolean"])]

/-- The kind that a type name stands for. The words are ASCII and free of `k`, so to lower ASCII
letters alone tells the same names apart as full case mapping. -/
def ofTypeName (name : String) : Kind :=
  let word := String.ofList ((Text.trim name.toList).map Char.toLower)
  match words.find? fun (_, ws) => ws.contains word with
  | some (kind, _) => kind
  | none => other

/-- The name under which a kind is shown. -/
def name : Kind → String
  | string => "string"
  | int16 => "int16"
  | int32 => "int32"
  | int64 => "int64"
  | float32 => "float32"
  | float64 => "float64"
  | decimal => "decimal"
  | dateTime => "datetime"
  | bool => "bool"
  | other => "other"

/-- The integers of fixed width. -/
def isInteger : Kind → Bool
  | int16 | int32 | int64 => true
  | _ => false

/-- Integers, floats and decimals. -/
def isNumeric : Kind → Bool
  | float32 | float64 | decimal => true
  | k => k.isInteger

/-- The kinds on which less and greater make sense. -/
def isOrdered : Kind → Bool
  | dateTime => true
  | k => k.isNumeric

/-- The kinds whose values can always be absent. -/
def isReference : Kind → Bool
  | string | other => true
  | _ => false

end Kind

end RecordFilter

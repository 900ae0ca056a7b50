import RecordFilter.Calendar.DateTime
import RecordFilter.Json.Value
import RecordFilter.Number.Decimal.Double
import RecordFilter.Schema.Kind

/-!
# Values

What a property of a record can hold: a value of its kind, a JSON document where the kind is a
complex type, or nothing. The views read a value as a number, a text or a truth value where it is
one.
-/

namespace RecordFilter

open Calendar Number

/-- A value of a property. -/
inductive Value where
  | int16 (n : Int16)
  | int32 (n : Int32)
  | int64 (n : Int64)
  | float32 (x : Single)
  | float64 (x : Double)
  | decimal (d : Decimal)
  | dateTime (t : DateTime)
  | string (s : String)
  | bool (b : Bool)
  | json (j : Json)
  | null

namespace Value

/-- The kind of a value; a document and an absent value have no kind of their own. -/
def kind : Value → Kind
  | int16 _ => .int16
  | int32 _ => .int32
  | int64 _ => .int64
  | float32 _ => .float32
  | float64 _ => .float64
  | decimal _ => .decimal
  | dateTime _ => .dateTime
  | string _ => .string
  | bool _ => .bool
  | json _ | null => .other

/-! ## Views -/

/-- The value is absent. -/
def isNull : Value → Bool
  | null => true
  | _ => false

/-- The value of an integer. -/
def toInt? : Value → Option Int
  | int16 n => some n.toInt
  | int32 n => some n.toInt
  | int64 n => some n.toInt
  | _ => none

/-- A number as a double: the nearest one, except that a decimal may miss it
(`Decimal.toDouble`). -/
def toDouble? : Value → Option Double
  | float32 x => some x.convert
  | float64 x => some x
  | decimal d => some d.toDouble
  | v => v.toInt?.map Binary.ofInt

/-- A number as exactly that decimal. -/
def toDecimal? : Value → Option Decimal
  | decimal d => some d
  | float32 x => x.toDecimal?
  | float64 x => x.toDecimal?
  | v => v.toInt?.map Decimal.ofInt

/-- A text, also as a document. -/
def toText? : Value → Option String
  | string s => some s
  | json (.string s) => some s
  | _ => none

/-- A truth value, also as a document. -/
def toBool? : Value → Option Bool
  | bool b => some b
  | json (.bool b) => some b
  | _ => none

/-! ## Writing -/

/-- Quotes with a backslash before them. -/
def escapeQuotes (s : List Char) : List Char :=
  s.flatMap fun c => if c = '\'' then ['\\', '\''] else [c]

/-- A text between quotes. -/
def writeText (s : List Char) : List Char := '\'' :: (escapeQuotes s ++ ['\''])

/-- A float in positional digits, as few as read back; a whole number has no point. -/
def writeFloat {f : Format} : Binary f → List Char
  | .nan => "NaN".toList
  | .infinite negative => (if negative then "-inf" else "inf").toList
  | .finite negative m e _ =>
    (if negative then ['-'] else []) ++
      if m = 0 then ['0'] else (Binary.shortest .up f m e).positional 0

/-- The written form of a value. -/
def write : Value → List Char
  | int16 n => Text.ofInt n.toInt
  | int32 n => Text.ofInt n.toInt
  | int64 n => Text.ofInt n.toInt
  | float32 x => writeFloat x
  | float64 x => writeFloat x
  | decimal d => d.write
  | dateTime t => t.write
  | string s => writeText s.toList
  | bool b => (if b then "true" else "false").toList
  | json j => j.write
  | null => "null".toList

instance : ToString Value := ⟨fun v => String.ofList v.write⟩

end Value

end RecordFilter

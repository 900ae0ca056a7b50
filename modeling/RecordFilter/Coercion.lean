import RecordFilter.Filter.Node
import RecordFilter.Value.OfJson

/-!
# Arguments as values

An argument becomes a value of the kind of the property it is compared with, if its form fits that
kind: quoted and bare texts are strings, numbers are numbers, dates are points in time. Arguments
of other forms are passed over, never reinterpreted. An argument of the right form that is no value
of the kind is an error. Truth values and complex types have no arguments.
-/

namespace RecordFilter

open Calendar Number Text RecordFilter.Filter

/-- An argument that is no value of a kind. -/
structure CoercionError where
  literal : String
  target : Kind
  deriving DecidableEq, Repr

/-- The message of the error. -/
def CoercionError.message (e : CoercionError) : String :=
  s!"'{e.literal}' is not a valid {e.target.name}"

/-! ## Quoted texts -/

/-- The text without the backslashes before quotes and backslashes; every other backslash
stays. -/
def unescape (quote : Char) : List Char → List Char
  | [] => []
  | '\\' :: c :: s =>
    if c = quote ∨ c = '\\' then c :: unescape quote s else '\\' :: unescape quote (c :: s)
  | c :: s => c :: unescape quote s

/-- The text between quotes: its first character is the quote, and a last one goes with it. -/
def unquote : List Char → List Char
  | [] => []
  | quote :: s => unescape quote (if s.getLast? = some quote then s.dropLast else s)

/-! ## Numbers -/

/-- An integer of so many bits. -/
def readInteger (bits : Nat) (s : List Char) : Option Int :=
  (readInt s).bind fun n => if fitsWord bits n then some n else none

namespace Kind

/-- The kind has arguments. -/
def takesArguments : Kind → Bool
  | bool | other => false
  | _ => true

/-- The argument has the form of the kind. -/
def fits : Kind → Literal → Bool
  | string, .quoted _ | string, .bare _ => true
  | dateTime, .date _ => true
  | k, .number _ => k.isNumeric
  | _, _ => false

/-- The value of a kind that the text of an argument is. -/
def ofText (k : Kind) (s : List Char) : Option Value :=
  match k with
  | string => some (.string (String.ofList s))
  | int16 => (readInteger 16 s).map fun n => .int16 (.ofInt n)
  | int32 => (readInteger 32 s).map fun n => .int32 (.ofInt n)
  | int64 => (readInteger 64 s).map fun n => .int64 (.ofInt n)
  | float32 => (Binary.read s).map .float32
  | float64 => (Binary.read s).map .float64
  | decimal => (Decimal.read s).map .decimal
  | dateTime => (Timestamp.read s).map .dateTime
  | bool | other => none

/-- What is read of an argument: a quoted text without its quotes. -/
def content : Literal → List Char
  | .quoted text => unquote text.toList
  | l => l.text.toList

/-- The value of a kind that an argument is, of the form of that kind. -/
def ofLiteral (k : Kind) (l : Literal) : Except CoercionError Value :=
  match k.ofText (content l) with
  | some v => .ok v
  | none => .error ⟨l.text, k⟩

end Kind

/-- The values that arguments are: one for each argument of the form of the kind, in their order.
`none` if the kind has no arguments. -/
def coerce (k : Kind) (literals : List Literal) : Except CoercionError (Option (List Value)) :=
  if k.takesArguments then return some (← (literals.filter k.fits).mapM k.ofLiteral)
  else return none

end RecordFilter

import RecordFilter.Number.Decimal.Same
import RecordFilter.Value.Basic

/-!
# The order of values

Texts, truth values and points in time compare with their like, numbers with all numbers.
Integers compare exactly, a decimal with any number exactly, and a float with an integer or a float
of another width as doubles. Two documents are equal or not comparable; an absent value compares
with nothing, not even with itself.
-/

namespace RecordFilter.Value

open Number

/-- The order of two truth values, in which `false` comes first. -/
def compareBool (a b : Bool) : Ordering :=
  if a = b then .eq else if a then .gt else .lt

/-- The order of two numbers as decimals. -/
def compareDecimals (a b : Value) : Option Ordering := do
  let a ← a.toDecimal?
  let b ← b.toDecimal?
  some (a.compare b)

/-- The order of two numbers that are no decimals: exact for integers, else as doubles. -/
def compareNumbers (a b : Value) : Option Ordering :=
  match a.toInt?, b.toInt? with
  | some m, some n => some (compareOfLessAndEq m n)
  | _, _ => do
    let x ← a.toDouble?
    let y ← b.toDouble?
    x.compare y

/-- The order of two values; `none` if they do not compare. -/
def compare : Value → Value → Option Ordering
  | null, _ => none
  | _, null => none
  | string a, string b => some (compareOfLessAndEq a b)
  | bool a, bool b => some (compareBool a b)
  | dateTime a, dateTime b => some (a.compare b)
  | float32 a, float32 b => a.compare b
  | json a, json b => if a.same b then some .eq else none
  | decimal a, b => compareDecimals (decimal a) b
  | a, decimal b => compareDecimals a (decimal b)
  | a, b => compareNumbers a b

/-- The two values compare as equal. -/
def equal (a b : Value) : Bool := a.compare b == some .eq

/-- The two values have one kind and one content; floats count by their value and decimals as
`Decimal.same` tells. Unlike `equal`, absent values are the same. -/
def same : Value → Value → Bool
  | int16 a, int16 b => a == b
  | int32 a, int32 b => a == b
  | int64 a, int64 b => a == b
  | float32 a, float32 b => a.same b
  | float64 a, float64 b => a.same b
  | decimal a, decimal b => a.same b
  | dateTime a, dateTime b => a == b
  | string a, string b => a == b
  | bool a, bool b => a == b
  | json a, json b => a.same b
  | null, null => true
  | _, _ => false

end RecordFilter.Value

import RecordFilter.Number.Power
import RecordFilter.Text.Digits

/-!
# Decimal numbers

A decimal number is an integer and a scale, the number of its places after the point; a negative
scale stands for trailing zeros. Two decimals with different scales can be the same number, so
`compare` is the order of the numbers, while the written form keeps the scale (`1.50`).

## Size

A scale is a 64 bit number, so `1E-9223372036854775807` is a decimal. Comparing therefore never
writes the zeros out: the position of the leading digit decides first, and only numbers whose
leading digits have the same position are brought to one scale, which costs no more digits than
the two numbers have.
-/

namespace RecordFilter.Number

open Text

/-- The number `digits * 10 ^ (-scale)`. -/
structure Decimal where
  digits : Int
  scale : Int
  deriving DecidableEq, Repr

namespace Decimal

/-- An integer as a decimal. -/
def ofInt (n : Int) : Decimal := ⟨n, 0⟩

/-! ## Order -/

/-- The position of the leading digit of a number that is not zero: it is at least
`10 ^ (magnitude - 1)` and less than `10 ^ magnitude`. -/
def magnitude (a : Decimal) : Int := digitCount a.digits.natAbs - a.scale

/-- The integer that `a` is at a scale at least as large as its own. -/
def digitsAt (a : Decimal) (scale : Int) : Int := a.digits * tenPow (scale - a.scale)

/-- The order of two numbers whose leading digits have one position. -/
def compareAligned (a b : Decimal) : Ordering :=
  let scale := max a.scale b.scale
  compareOfLessAndEq (a.digitsAt scale) (b.digitsAt scale)

/-- The order of two numbers that are both above zero. -/
def comparePositive (a b : Decimal) : Ordering :=
  (compareOfLessAndEq a.magnitude b.magnitude).then (compareAligned a b)

/-- The number with its sign turned. -/
def neg (a : Decimal) : Decimal := ⟨-a.digits, a.scale⟩

/-- The order of two numbers. -/
def compare (a b : Decimal) : Ordering :=
  if 0 < a.digits then
    if 0 < b.digits then comparePositive a b else .gt
  else if a.digits < 0 then
    if b.digits < 0 then comparePositive b.neg a.neg else .lt
  else compareOfLessAndEq 0 b.digits

/-! ## Reading -/

/-- Digits with `_` as separators, which may not stand first; at least one character. -/
def readSeparated (s : List Char) : Option Nat :=
  if s.isEmpty || s.head? == some '_' then none
  else if s.all fun c => c.isDigit || c == '_' then some (ofDigits (s.filter (· != '_')))
  else none

/-- An optional sign before separated digits. -/
def readSigned (s : List Char) : Option Int :=
  let (negative, ds) := spanSign s
  (readSeparated ds).map (signed negative)

/-- The text without its first point, and the number of places after that point; a point at the
end has none. -/
def splitPoint (s : List Char) : List Char × Nat :=
  match splitWhile (· != '.') s with
  | (whole, _ :: places) => (whole ++ places, (places.filter (· != '_')).length)
  | (whole, []) => (whole, 0)

/-- The text before the first `e` or `E`, and the exponent after it; zero if there is none. -/
def splitExponent (s : List Char) : Option (List Char × Int) :=
  match splitWhile (fun c => c != 'e' && c != 'E') s with
  | (mantissa, _ :: exponent) => (readInt exponent).map fun e => (mantissa, e)
  | (mantissa, []) => some (mantissa, 0)

/-- A decimal number: digits with an optional sign, point, separators and exponent, whose scale
fits a word. -/
def read (s : List Char) : Option Decimal := do
  let (mantissa, exponent) ← splitExponent s
  let (whole, places) := splitPoint mantissa
  let digits ← readSigned whole
  let scale := places - exponent
  if fitsWord 64 scale then some ⟨digits, scale⟩ else none

/-! ## Writing -/

/-- What is written out in full: at most `leadingZeros` zeros between the point and the first
digit, at most `trailingZeros` behind the last one. -/
structure Extent where
  leadingZeros : Nat
  trailingZeros : Nat

/-- Five zeros after the point and fifteen zeros at the end are written out. -/
def extent : Extent := ⟨5, 15⟩

/-- One digit before the point, the others behind it. -/
def pointAfterFirst : List Char → List Char
  | [] => []
  | [d] => [d]
  | d :: ds => d :: '.' :: ds

/-- A magnitude above zero, written with its digits `ds` at the given scale: positional within
`extent`, with an exponent beyond it. -/
def writeDigits (ds : List Char) (scale : Int) : List Char :=
  let zeros := scale.natAbs
  if scale ≤ 0 then
    if zeros ≤ extent.trailingZeros then ds ++ List.replicate zeros '0'
    else ds ++ 'e' :: '+' :: Text.digits zeros
  else if zeros < ds.length then
    ds.take (ds.length - zeros) ++ '.' :: ds.drop (ds.length - zeros)
  else if zeros - ds.length ≤ extent.leadingZeros then
    '0' :: '.' :: (List.replicate (zeros - ds.length) '0' ++ ds)
  else pointAfterFirst ds ++ 'E' :: '-' :: Text.digits (zeros + 1 - ds.length)

/-- The written form, which keeps the trailing zeros that the scale asks for; a zero is `0` at
every scale. -/
def write (a : Decimal) : List Char :=
  if a.digits = 0 then ['0']
  else
    let body := writeDigits (Text.digits a.digits.natAbs) a.scale
    if a.digits < 0 then '-' :: body else body

end Decimal

end RecordFilter.Number

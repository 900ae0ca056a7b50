import RecordFilter.Text.Split

/-!
# Decimal digits

Numbers as runs of the digits `0` to `9`. `ofDigits` is the value of a run, `digits` the run
without leading zeros that has a given value.
-/

namespace RecordFilter.Text

/-- The value of a digit. -/
def digitValue (c : Char) : Nat := c.toNat - '0'.toNat

/-- The value of a run of digits, the most significant first; an empty run is zero. -/
def ofDigits (s : List Char) : Nat := s.foldl (fun n c => 10 * n + digitValue c) 0

/-- The decimal digits of a number, without leading zeros; zero is the one digit `0`. -/
def digits (n : Nat) : List Char := Nat.toDigits 10 n

/-- How many decimal digits a number has; zero has one. -/
def digitCount (n : Nat) : Nat := (digits n).length

/-- An integer in decimal, with `-` before a negative one. -/
def ofInt (n : Int) : List Char :=
  if n < 0 then '-' :: digits n.natAbs else digits n.natAbs

/-- The digits at the head of the text, and what follows them. -/
def spanDigits (s : List Char) : List Char × List Char := splitWhile Char.isDigit s

/-- The sign at the head of the text (`true` for a minus) and what follows it; no sign is a
plus. -/
def spanSign : List Char → Bool × List Char
  | '-' :: s => (true, s)
  | '+' :: s => (false, s)
  | s => (false, s)

/-- A magnitude with a sign. -/
def signed (negative : Bool) (n : Nat) : Int := if negative then -(n : Int) else n

/-- An integer: an optional sign and one or more digits, nothing else. -/
def readInt (s : List Char) : Option Int :=
  let (negative, ds) := spanSign s
  if !ds.isEmpty && ds.all Char.isDigit then some (signed negative (ofDigits ds)) else none

end RecordFilter.Text

import RecordFilter.Json.Raw
import RecordFilter.Number.Binary.Shortest

/-!
# JSON numbers

A numeral without point and exponent is an integer as long as it fits a 64 bit word, with sign or
without; every other numeral is a double.

## Doubles

A double is read from a significand of 64 bits: the leading digits of the numeral, as many as fit.
Digits left over before the point only raise the exponent, digits left over behind it are dropped.
The significand is rounded to a double first and then multiplied or divided by a power of ten that
is a double itself, so the result can be a neighbour of the double nearest to the numeral. A
result beyond the largest double is an error, one below the least is zero.

## Writing

Doubles are written with their shortest digits, positional near 1 and with an exponent elsewhere.
-/

namespace RecordFilter.Json

open Text Number

/-- A number of a JSON document. -/
inductive Number where
  | integer (n : Int)
  | float (x : Double)
  deriving DecidableEq

/-! ## Reading -/

/-- One more than the largest word. -/
def wordBound : Nat := twoPow 64

/-- One more than the largest exponent that a numeral may have. -/
def exponentBound : Nat := twoPow 31

/-- The largest power of ten that is a double. -/
def maxPower : Nat := 308

/-- The longest run of leading digits that keeps a number within a word, as the number continued
by them, and the digits after the run. -/
def takeWord (n : Nat) : List Char → Nat × List Char
  | [] => (n, [])
  | c :: ds =>
    let more := 10 * n + digitValue c
    if more < wordBound then takeWord more ds else (n, c :: ds)

/-- A power of ten as a double. -/
def powerOfTen (k : Nat) : Double := Binary.ofScientific false 1 k

/-- A double times a power of ten, in steps of at most `10 ^ maxPower` downwards; `none` beyond
the largest double. -/
def scale (x : Double) (e : Int) : Option Double :=
  if e < -maxPower then
    if x.same (Binary.zero false) then some x
    else scale (x.div (powerOfTen maxPower)) (e + maxPower)
  else if e < 0 then some (x.div (powerOfTen e.natAbs))
  else if e ≤ maxPower then
    let y := x.mul (powerOfTen e.toNat)
    if y.isFinite then some y else none
  else if x.same (Binary.zero false) then some x
  else none
termination_by e.natAbs
decreasing_by simp only [maxPower] at *; omega

/-- A double from its significand and exponent. -/
def ofParts (negative : Bool) (significand : Nat) (e : Int) : Option Number :=
  (scale (Binary.ofInt significand) e).map fun x => .float (if negative then x.neg else x)

/-- A double with an exponent written out; one that does not fit 31 bits makes zero of a negative
exponent and of a significand that is zero, and otherwise an error. -/
def withExponent (negative : Bool) (significand : Nat) (e : Int) (below : Bool)
    (ds : List Char) : Option Number :=
  if ofDigits ds < exponentBound then ofParts negative significand (e + signed below (ofDigits ds))
  else if significand = 0 ∨ below then some (.float (Binary.zero negative))
  else none

/-- An integer within a word; below zero only down to `-2 ^ 63`, else a double, as is minus
zero. -/
def ofWord (negative : Bool) (n : Nat) : Option Number :=
  if !negative then some (.integer n)
  else if 0 < n ∧ fitsWord 64 (-n) then some (.integer (-n))
  else some (.float (Binary.ofInt n).neg)

/-- The number that a numeral stands for; `none` if it is beyond the largest double. -/
def Number.ofNumeral (n : Numeral) : Option Number :=
  let (word, left) := takeWord 0 n.whole
  let (significand, dropped) := takeWord word n.places
  let e : Int := left.length - (n.places.length - dropped.length : Nat)
  match n.exponent with
  | some (below, ds) => withExponent n.negative significand e below ds
  | none =>
    if left.isEmpty && n.places.isEmpty then ofWord n.negative word
    else ofParts n.negative significand e

/-! ## Writing -/

/-- The places of the decimal point, counted from the first digit, at which a double is written
without an exponent: above `below` and up to `upTo`. -/
structure Positional where
  below : Int
  upTo : Int

/-- Doubles are positional from `0.0000d` to sixteen digits before the point. -/
def positionalDouble : Positional := ⟨-5, 16⟩

/-- Single floats are positional from `0.00000d` to thirteen digits before the point. -/
def positionalSingle : Positional := ⟨-6, 13⟩

/-- Digits around their point, with one place at least. -/
def Numeral.ofSignificant (p : Positional) (negative : Bool) (s : Significant) : Numeral :=
  let ds := digits s.digits
  if p.below < s.point ∧ s.point ≤ 0 then
    ⟨negative, ['0'], List.replicate s.point.natAbs '0' ++ ds, none⟩
  else if 0 < s.point ∧ s.point ≤ p.upTo then
    let whole := ds.take s.point.toNat ++ List.replicate (s.point.toNat - ds.length) '0'
    let places := ds.drop s.point.toNat
    ⟨negative, whole, if places.isEmpty then ['0'] else places, none⟩
  else ⟨negative, ds.take 1, ds.drop 1, some (s.point < 1, digits (s.point - 1).natAbs)⟩

/-- A float as a numeral; what is not finite has none. -/
def Numeral.ofFloat? {f : Format} (p : Positional) : Binary f → Option Numeral
  | .finite negative m e _ =>
    if m = 0 then some ⟨negative, ['0'], ['0'], none⟩
    else some (.ofSignificant p negative (Binary.shortest .toEven f m e))
  | _ => none

/-- An integer as a numeral. -/
def Numeral.ofInt (n : Int) : Numeral := ⟨n < 0, digits n.natAbs, [], none⟩

/-- A float in a JSON text, where `null` stands for what is not finite. -/
def Raw.ofFloat {f : Format} (p : Positional) (x : Binary f) : Raw :=
  match Numeral.ofFloat? p x with
  | some n => .number n
  | none => .null

/-- A number in a JSON text. -/
def Number.toRaw : Number → Raw
  | integer n => .number (.ofInt n)
  | float x => .ofFloat positionalDouble x

/-! ## Views -/

/-- The number as an integer within a signed word of 64 bits. -/
def Number.toInt? : Number → Option Int
  | integer n => if fitsWord 64 n then some n else none
  | float _ => none

/-- The number as the nearest double. -/
def Number.toDouble : Number → Double
  | integer n => Binary.ofInt n
  | float x => x

/-- Equal as JSON numbers: an integer is never a double, both zeros are one double. -/
def Number.same : Number → Number → Bool
  | integer a, integer b => a == b
  | float a, float b => a.same b
  | _, _ => false

end RecordFilter.Json

import RecordFilter.Number.Binary

/-!
# Shortest decimal digits

The fewest decimal digits that read back as a given floating-point number and, among those, the
ones nearest to it.

## Mechanism

The numbers that round to a float form an interval around it, whose ends belong to it exactly when
the significand is even. It reaches half a unit of the last place to both sides, but only a quarter
below a power of two, where the numbers lie twice as close. On the grid of decimals with one digit,
two digits and so on, only the two neighbours of the float can be nearest, so these are tested: the
first grid with a neighbour inside the interval gives the digits. `Format.decimalDigits` digits
always suffice.
-/

namespace RecordFilter.Number

open Text

/-- Which neighbour is taken when a number lies midway between two. -/
inductive Tie where
  | up
  | toEven
  deriving DecidableEq, Repr

/-- `0.ddd * 10 ^ point`, where `ddd` are the digits: `point` is the place of the decimal point,
counted from the first digit. -/
structure Significant where
  digits : Nat
  point : Int
  deriving DecidableEq, Repr

/-- As many digits as tell any two numbers of the format apart. -/
def Format.decimalDigits (f : Format) : Nat := f.precision * 30103 / 100000 + 2

/-- A number with the bounds of the interval that reads back as it, all three in units of
`1 / den`. -/
structure Rounding where
  low : Nat
  value : Nat
  high : Nat
  den : Nat
  closed : Bool

namespace Rounding

/-- The interval of `m * 2 ^ e`. -/
def of (f : Format) (m : Nat) (e : Int) : Rounding :=
  let scale := twoPow (e - 2)
  let below := if m = twoPow (f.precision - 1) ∧ f.minExp < e then 1 else 2
  { low := (4 * m - below) * scale, value := 4 * m * scale, high := (4 * m + 2) * scale,
    den := twoPow (2 - e), closed := m % 2 == 0 }

/-- The decimal `d * 10 ^ k` lies in the interval. -/
def contains (r : Rounding) (d : Nat) (k : Int) : Bool :=
  let x := d * tenPow k * r.den
  let unit := tenPow (-k)
  if r.closed then r.low * unit ≤ x && x ≤ r.high * unit
  else r.low * unit < x && x < r.high * unit

/-- The multiple of `10 ^ k` below the value. -/
def floor (r : Rounding) (k : Int) : Nat :=
  r.value * tenPow (-k) / (r.den * tenPow k)

/-- Where the value lies between the multiple `d` of `10 ^ k` and the next one: whether it is
nearer to `d`, as near to both, or nearer to the next. -/
def compareMidpoint (r : Rounding) (d : Nat) (k : Int) : Ordering :=
  compareOfLessAndEq (2 * r.value * tenPow (-k)) ((2 * d + 1) * tenPow k * r.den)

/-- The place of the decimal point before the first digit of the value, for a number of the
format that is not zero. -/
def point (f : Format) (r : Rounding) : Int :=
  let places := f.minExp.natAbs / 3 + 1
  digitCount (r.value * tenPow places / r.den) - places

/-- A neighbour of the value on the grid `10 ^ k` that lies in the interval, the nearer one if
both do. -/
def neighbour? (tie : Tie) (r : Rounding) (k : Int) : Option Nat :=
  let d := r.floor k
  let upper := match r.compareMidpoint d k with
    | .lt => false
    | .gt => true
    | .eq => match tie with
      | .up => true
      | .toEven => d % 2 == 1
  match r.contains d k, r.contains (d + 1) k with
  | true, true => some (if upper then d + 1 else d)
  | true, false => some d
  | false, true => some (d + 1)
  | false, false => none

end Rounding

/-- A multiple of `10 ^ k` without trailing zeros. -/
def Significant.ofMultiple (d : Nat) (k : Int) : Significant :=
  let zeros := ((Text.digits d).reverse.takeWhile (· == '0')).length
  ⟨d / tenPow zeros, digitCount d + k⟩

namespace Binary

/-- The fewest digits that read back as the float `m * 2 ^ e`, for `m` above zero. -/
def shortest (tie : Tie) (f : Format) (m : Nat) (e : Int) : Significant :=
  let r := Rounding.of f m e
  let point := r.point f
  let grids := (List.range f.decimalDigits).map fun i => point - (i + 1 : Nat)
  match grids.findSome? fun k => (r.neighbour? tie k).map fun d => Significant.ofMultiple d k with
  | some s => s
  | none => Significant.ofMultiple (r.floor (point - f.decimalDigits)) (point - f.decimalDigits)

end Binary

/-- The digits written out around the point, without an exponent: `places` zeros at least stand
behind the point of a whole number. -/
def Significant.positional (s : Significant) (places : Nat) : List Char :=
  let ds := Text.digits s.digits
  if s.point ≤ 0 then '0' :: '.' :: (List.replicate s.point.natAbs '0' ++ ds)
  else
    let whole := s.point.toNat
    if whole < ds.length then ds.take whole ++ '.' :: ds.drop whole
    else ds ++ List.replicate (whole - ds.length) '0' ++
      (if places = 0 then [] else '.' :: List.replicate places '0')

end RecordFilter.Number

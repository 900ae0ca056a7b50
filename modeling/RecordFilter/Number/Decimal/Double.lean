import RecordFilter.Number.Binary

/-!
# Decimals as doubles

The double that stands for a decimal. It lies near the decimal but is not always the nearest one,
because every step below may round.

## Mechanism

* An integer is rounded from its 64 leading bits (`ofNatural`).
* Any other number first loses digits at its end, nineteen at a time, while more than 25 are left
  (`shorten`).
* What then has places behind the point is rounded once.
* What then has zeros at its end is rounded as an integer and multiplied by a power of ten, which is
  itself a product of doubles (`power`).
* A scale of more than 31 bits, to either side, makes an infinity.
-/

namespace RecordFilter.Number

/-! ## Integers -/

/-- The 64 leading bits of a number, and how many bits follow them. The last of the 64 is also set
if a bit behind it is: all bits of the word in which the 64 end are looked at, and in each word
further down as many of the low bits as the first word of the number has. -/
def leadingBits (n : Nat) : Nat × Nat :=
  let length := n.log2 + 1
  let first := (length - 1) % 64 + 1
  let behind := length - 64
  let leading := n / twoPow behind
  let set := (List.range ((length - 1) / 64)).any fun (i : Nat) =>
    n / twoPow (64 * i) % twoPow first != 0
  (if set then leading ||| 1 else leading, behind)

/-- The double of a natural number. -/
def ofNatural (n : Nat) : Double :=
  let (leading, behind) := leadingBits n
  Binary.ofRatio false (leading * twoPow behind) 1

/-! ## Powers -/

/-- `product` times a power of `base`, by squaring the base and rounding every product. -/
def power (product base : Double) (k : Nat) : Double :=
  if k = 0 then product
  else power (if k % 2 = 1 then product.mul base else product) (base.mul base) (k / 2)
termination_by k

/-! ## Decimals -/

namespace Decimal

/-- How many digits a number has, judged by the length of its bits, of which one more is counted;
the number may have one digit more. -/
def digitEstimate (n : Nat) : Nat := (n.log2 + 2) * 30102999566398 / 100000000000000

/-- How many digits are kept at least. -/
def keptDigits : Nat := 25

/-- How many digits are cut off at a time. -/
def cutDigits : Nat := 19

/-- A number without its last digits, as many at a time as `cutDigits` says and as often as
`keptDigits` are left. -/
def shorten (n : Nat) (scale : Int) : Nat × Int :=
  let cut := (digitEstimate n - keptDigits) / cutDigits * cutDigits
  (n / tenPow cut, scale - cut)

/-- The double of a number above zero at a scale that is not zero. -/
def scaledDouble (n : Nat) (scale : Int) : Double :=
  let (n, scale) := shorten n scale
  if scale.natAbs < twoPow 31 then
    if 0 < scale then Binary.ofScientific false n (-scale)
    else (ofNatural n).mul (power (Binary.ofInt 1) (Binary.ofInt 10) scale.natAbs)
  else .infinite false

/-- The double of a decimal; a zero has no sign. -/
def toDouble (a : Decimal) : Double :=
  let n := a.digits.natAbs
  if n = 0 then Binary.zero false
  else
    let magnitude := if a.scale = 0 then ofNatural n else scaledDouble n a.scale
    if a.digits < 0 then magnitude.neg else magnitude

end Decimal

end RecordFilter.Number

import RecordFilter.Number.Decimal

/-!
# Sameness of decimals

Whether two decimals are taken for one number where whole values are compared, not ordered. Equality
of numbers is `compare`; `same` is a quicker test that agrees with it unless the scales differ by
less than twenty.

## Mechanism

The number with the larger scale is held against the other one times a power of ten, in words of 32
bits from the lowest on. A product of a word and the power has to fit 64 bits; if one does not, or
the power is too large for that, the numbers are compared. The carry is then added to the product
within 64 bits, and a sum beyond that loses its top bit. Then the next carry is too small, and the
test can say no to equal numbers and yes to others. For a product of at most `2 ^ 64 - 2 ^ 32` the
sum fits, as a carry is shorter than a word, and the test is exact.
-/

namespace RecordFilter.Number

/-- A number in words of 32 bits, the lowest first and without zeros at the end. -/
def words (n : Nat) : List Nat :=
  if n = 0 then [] else n % twoPow 32 :: words (n / twoPow 32)
termination_by n
decreasing_by exact Nat.div_lt_self (by omega) (by decide)

/-- Whether the words of one number are those of another one times a factor, to which a carry is
added; `none` if a product does not fit 64 bits. A sum of a product and the carry is kept to 64
bits. -/
def sameWords (factor carry : Nat) : List Nat → List Nat → Option Bool
  | [], [] => some (carry = 0)
  | [], _ :: _ => some false
  | x :: xs, [] =>
    if x = carry then sameWords factor 0 xs [] else some false
  | x :: xs, y :: ys =>
    if twoPow 64 ≤ y * factor then none
    else
      let sum := (y * factor + carry) % twoPow 64
      if x = sum % twoPow 32 then sameWords factor (sum / twoPow 32) xs ys else some false

/-- Whether `n` is `m * factor`, for numbers above zero; `none` if that is not decided in words. A
number with fewer bits than the product is not looked at word by word. -/
def sameProduct (n m factor : Nat) : Option Bool :=
  if n.log2 < m.log2 + factor.log2 then some false
  else sameWords factor 0 (words n) (words m)

namespace Decimal

/-- From this difference of scales on, decimals are compared as numbers. -/
def wordPlaces : Nat := 20

/-- Sameness of two decimals with one sign, of which the first has the larger scale. -/
def sameFine (fine coarse : Decimal) : Bool :=
  let places := fine.scale - coarse.scale
  let inWords :=
    if places < wordPlaces then
      sameProduct fine.digits.natAbs coarse.digits.natAbs (tenPow places)
    else none
  inWords.getD (fine.compare coarse == .eq)

/-- The two decimals are taken for one number. -/
def same (a b : Decimal) : Bool :=
  if a.digits.sign ≠ b.digits.sign then false
  else if a.digits = 0 then true
  else if a.scale = b.scale then a.digits == b.digits
  else if b.scale < a.scale then sameFine a b
  else sameFine b a

end Decimal

end RecordFilter.Number

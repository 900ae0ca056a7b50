import RecordFilter.Number.Decimal

/-!
# Binary floating point

Numbers of a binary format with a fixed precision and a bounded exponent, with both zeros, both
infinities and one value that is no number. All arithmetic is exact on integers and rounded once,
to the nearest number of the format, a half to the even neighbour.

## Units

Every finite number of a format is a whole multiple of its least positive number. `units` is that
multiple; it carries the order of the format and turns comparing into a comparison of integers.
-/

namespace RecordFilter.Number

open Text

/-- A binary format: the bits of a significand, and the exponents of its last bit. -/
structure Format where
  precision : Nat
  minExp : Int
  maxExp : Int
  minExp_le_maxExp : minExp ≤ maxExp := by decide
  deriving DecidableEq

/-- The format of 32 bits. -/
def Format.single : Format := { precision := 24, minExp := -149, maxExp := 104 }

/-- The format of 64 bits. -/
def Format.double : Format := { precision := 53, minExp := -1074, maxExp := 971 }

/-- `m * 2 ^ e` in the one way in which the format writes it: with all bits of the precision, or
with fewer of them at the least exponent. -/
def Format.Holds (f : Format) (m : Nat) (e : Int) : Prop :=
  m < twoPow f.precision ∧ f.minExp ≤ e ∧ e ≤ f.maxExp ∧
    (twoPow (f.precision - 1) ≤ m ∨ e = f.minExp)

instance (f : Format) (m : Nat) (e : Int) : Decidable (f.Holds m e) :=
  inferInstanceAs (Decidable (_ ∧ _ ∧ _ ∧ _))

/-- A number of a binary format. -/
inductive Binary (f : Format) where
  | finite (negative : Bool) (mantissa : Nat) (exponent : Int) (ok : f.Holds mantissa exponent)
  | infinite (negative : Bool)
  | nan
  deriving DecidableEq

/-- Numbers of 32 bits. -/
abbrev Single := Binary Format.single

/-- Numbers of 64 bits. -/
abbrev Double := Binary Format.double

theorem Format.holds_zero (f : Format) : f.Holds 0 f.minExp :=
  ⟨twoPow_pos _, Int.le_refl _, f.minExp_le_maxExp, .inr rfl⟩

/-! ## Rounding -/

/-- The quotient rounded to the nearest integer, a half to the even one. -/
def divNearest (n d : Nat) : Nat :=
  let q := n / d
  let r := n % d
  if 2 * r < d then q else if d < 2 * r then q + 1 else q + q % 2

/-- The exponent `k` with `2 ^ k ≤ n / d < 2 ^ (k + 1)`, for `n` and `d` above zero. -/
def binaryMagnitude (n d : Nat) : Int :=
  let k : Int := (n.log2 : Int) - d.log2
  if d * twoPow k ≤ n * twoPow (-k) then k else k - 1

namespace Binary

variable {f g : Format}

/-- A zero with a sign. -/
def zero (negative : Bool) : Binary f := finite negative 0 f.minExp f.holds_zero

/-- `m * 2 ^ e`, or an infinity when the format has no room for it. -/
def ofParts (negative : Bool) (m : Nat) (e : Int) : Binary f :=
  if h : f.Holds m e then finite negative m e h else infinite negative

/-- The number of the format nearest to `n / d`, for `d` above zero. -/
def ofRatio (negative : Bool) (n d : Nat) : Binary f :=
  if n = 0 then zero negative
  else
    let e := max f.minExp (binaryMagnitude n d - (f.precision - 1 : Nat))
    let m := divNearest (n * twoPow (-e)) (d * twoPow e)
    if m = twoPow f.precision then ofParts negative (twoPow (f.precision - 1)) (e + 1)
    else ofParts negative m e

/-- The number nearest to `digits * 10 ^ exponent`. Far beyond the range of the format, where the
power of ten would be long, its leading digit alone decides. -/
def ofScientific (negative : Bool) (digits : Nat) (exponent : Int) : Binary f :=
  let leading : Int := digitCount digits + exponent
  if digits = 0 then zero negative
  else if f.precision + f.maxExp ≤ 3 * (leading - 1) then infinite negative
  else if 1 - f.minExp ≤ -3 * leading then zero negative
  else ofRatio negative (digits * tenPow exponent) (tenPow (-exponent))

/-- The number nearest to an integer. -/
def ofInt (n : Int) : Binary f := ofRatio (n < 0) n.natAbs 1

/-! ## Parts -/

/-- A finite magnitude as a quotient. -/
def ratio (m : Nat) (e : Int) : Nat × Nat := (m * twoPow e, twoPow (-e))

/-- The same number in another format, rounded if that has fewer bits. -/
def convert : Binary f → Binary g
  | finite negative m e _ => let (n, d) := ratio m e; ofRatio negative n d
  | infinite negative => infinite negative
  | nan => nan

/-- The number with its sign turned. -/
def neg : Binary f → Binary f
  | finite negative m e h => finite (!negative) m e h
  | infinite negative => infinite (!negative)
  | nan => nan

/-- Neither an infinity nor a value that is no number. -/
def isFinite : Binary f → Bool
  | finite .. => true
  | _ => false

/-- How many factors of two a significand shares with the power of two that it is divided by. A
number with fewer bits than the precision is divided by the whole power. -/
def sharedTwos (f : Format) (m : Nat) (e : Int) : Nat :=
  if m < twoPow (f.precision - 1) then 0
  else ((List.range (-e).toNat).takeWhile fun (i : Nat) => m % twoPow (i + 1) == 0).length

/-- Exactly the number, as a decimal; an infinity has none. A number with all bits of the precision
has no needless place. -/
def toDecimal? : Binary f → Option Decimal
  | finite negative m e _ =>
    if m = 0 then some ⟨0, 0⟩
    else
      let twos := sharedTwos f m e
      let places := (-e).toNat - twos
      let digits := m / twoPow twos * twoPow e * Nat.pow 5 places
      some ⟨signed negative digits, places⟩
  | _ => none

/-! ## Order -/

/-- The multiple of the least positive number of the format. -/
def units (negative : Bool) (m : Nat) (e : Int) : Int :=
  signed negative (m * twoPow (e - f.minExp))

/-- The order of two numbers; there is none if one of them is no number. Both zeros are equal. -/
def compare : Binary f → Binary f → Option Ordering
  | nan, _ => none
  | _, nan => none
  | infinite a, infinite b => some (if a = b then .eq else if a then .lt else .gt)
  | infinite a, finite .. => some (if a then .lt else .gt)
  | finite .., infinite b => some (if b then .gt else .lt)
  | finite a m e _, finite b n k _ =>
    some (compareOfLessAndEq (units (f := f) a m e) (units (f := f) b n k))

/-- Equal as numbers: both zeros are one number, and what is no number differs from itself. -/
def same (a b : Binary f) : Bool := a.compare b == some .eq

/-! ## Arithmetic -/

/-- The product. -/
def mul : Binary f → Binary f → Binary f
  | finite a m e _, finite b n k _ => ofRatio (a != b) (m * n * twoPow (e + k)) (twoPow (-(e + k)))
  | finite a m _ _, infinite b => if m = 0 then nan else infinite (a != b)
  | infinite a, finite b m _ _ => if m = 0 then nan else infinite (a != b)
  | infinite a, infinite b => infinite (a != b)
  | nan, _ => nan
  | _, nan => nan

/-- The quotient. -/
def div : Binary f → Binary f → Binary f
  | finite a m e _, finite b n k _ =>
    if n = 0 then if m = 0 then nan else infinite (a != b)
    else ofRatio (a != b) (m * twoPow (e - k)) (n * twoPow (k - e))
  | finite a _ _ _, infinite b => zero (a != b)
  | infinite a, finite b _ _ _ => infinite (a != b)
  | infinite _, infinite _ => nan
  | nan, _ => nan
  | _, nan => nan

/-! ## Reading -/

/-- Words that are numbers, in any letter case. -/
def ofWord? (negative : Bool) (s : List Char) : Option (Binary f) :=
  let word := String.ofList (s.map Char.toLower)
  if word = "inf" ∨ word = "infinity" then some (infinite negative)
  else if word = "nan" then some nan
  else none

/-- The exponent behind `e` or `E`; zero for no text at all. -/
def readExponent : List Char → Option Int
  | [] => some 0
  | c :: s => if c = 'e' ∨ c = 'E' then readInt s else none

/-- A number: an optional sign, digits with an optional point among or around them, an optional
exponent; or a sign and a word. -/
def read (s : List Char) : Option (Binary f) :=
  let (negative, body) := spanSign s
  match ofWord? negative body with
  | some x => some x
  | none =>
    let (whole, rest) := spanDigits body
    let (places, rest) := match rest with
      | '.' :: rest => spanDigits rest
      | rest => ([], rest)
    if whole.isEmpty && places.isEmpty then none
    else (readExponent rest).map fun e =>
      ofScientific negative (ofDigits (whole ++ places)) (e - places.length)

end Binary

end RecordFilter.Number

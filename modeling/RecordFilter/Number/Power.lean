/-!
# Powers

Powers of two and of ten as factors of integers. A number `m * 2 ^ k` with `k` below zero is the
quotient of `m` and a power, so both functions take the exponent as it is and are one below zero:
`m * twoPow k` over `twoPow (-k)` is `m * 2 ^ k` for every `k`.
-/

namespace RecordFilter.Number

/-- `2 ^ k`, and one for `k` below zero. -/
def twoPow (k : Int) : Nat := Nat.pow 2 k.toNat

/-- `10 ^ k`, and one for `k` below zero. -/
def tenPow (k : Int) : Nat := Nat.pow 10 k.toNat

theorem twoPow_pos (k : Int) : 0 < twoPow k := Nat.pow_pos (by decide)

theorem tenPow_pos (k : Int) : 0 < tenPow k := Nat.pow_pos (by decide)

/-- The number fits a signed word of so many bits. -/
def fitsWord (bits : Nat) (n : Int) : Bool :=
  -(twoPow (bits - 1) : Int) ≤ n && n < twoPow (bits - 1)

end RecordFilter.Number

import Mathlib
import RecordFilter.Number.Decimal

/-!
# Powers as rational numbers

An integer factor `twoPow k` over `twoPow (-k)` is the power `2 ^ k`, for every exponent, and
likewise for ten. The digits of a number bound it by powers of ten.
-/

namespace RecordFilter.Number

open Text

/-! ## Factors -/

theorem twoPow_of_nonneg {k : ℤ} (hk : 0 ≤ k) : (twoPow k : ℚ) = 2 ^ k := by
  obtain ⟨n, rfl⟩ := Int.eq_ofNat_of_zero_le hk
  rw [zpow_natCast]
  exact Nat.cast_pow 2 n

theorem twoPow_of_nonpos {k : ℤ} (hk : k ≤ 0) : twoPow k = 1 := by
  rw [twoPow, Int.toNat_of_nonpos hk]

theorem tenPow_of_nonneg {k : ℤ} (hk : 0 ≤ k) : (tenPow k : ℚ) = 10 ^ k := by
  obtain ⟨n, rfl⟩ := Int.eq_ofNat_of_zero_le hk
  rw [zpow_natCast]
  exact Nat.cast_pow 10 n

theorem tenPow_of_nonpos {k : ℤ} (hk : k ≤ 0) : tenPow k = 1 := by
  rw [tenPow, Int.toNat_of_nonpos hk]

/-- The two factors of an exponent make up its power. -/
theorem twoPow_div (k : ℤ) : (twoPow k : ℚ) / twoPow (-k) = 2 ^ k := by
  rcases le_total 0 k with hk | hk
  · rw [twoPow_of_nonneg hk, twoPow_of_nonpos (by omega), Nat.cast_one, div_one]
  · rw [twoPow_of_nonpos hk, twoPow_of_nonneg (by omega), Nat.cast_one, one_div, zpow_neg, inv_inv]

theorem tenPow_div (k : ℤ) : (tenPow k : ℚ) / tenPow (-k) = 10 ^ k := by
  rcases le_total 0 k with hk | hk
  · rw [tenPow_of_nonneg hk, tenPow_of_nonpos (by omega), Nat.cast_one, div_one]
  · rw [tenPow_of_nonpos hk, tenPow_of_nonneg (by omega), Nat.cast_one, one_div, zpow_neg, inv_inv]

/-! ## Digits -/

theorem digitCount_pos (n : ℕ) : 0 < digitCount n := Nat.length_toDigits_pos

theorem digitCount_le_iff {n k : ℕ} (hk : 0 < k) : digitCount n ≤ k ↔ n < 10 ^ k :=
  Nat.length_toDigits_le_iff (by decide) hk

theorem lt_pow_digitCount (n : ℕ) : n < 10 ^ digitCount n :=
  (digitCount_le_iff (digitCount_pos n)).1 le_rfl

theorem pow_le_of_lt_digitCount {n k : ℕ} (hn : 0 < n) (hk : k < digitCount n) : 10 ^ k ≤ n := by
  rcases Nat.eq_zero_or_pos k with rfl | hpos
  · exact hn
  · exact not_lt.1 fun h => absurd ((digitCount_le_iff hpos).2 h) (not_le.2 hk)

end RecordFilter.Number

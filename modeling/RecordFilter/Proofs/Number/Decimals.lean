import RecordFilter.Proofs.Number.Rounding

/-!
# The number of a decimal

Decimals with different scales can be one number. The order of decimals is the order of the numbers
(`compare_eq_cmp`).
-/

namespace RecordFilter.Number

/-- The two ways of the library to compare in a linear order are one. -/
theorem compareOfLessAndEq_eq_cmp {α : Type} [LinearOrder α] (a b : α) [Decidable (a < b)]
    [DecidableEq α] : compareOfLessAndEq a b = cmp a b := by
  rcases lt_trichotomy a b with h | h | h
  · rw [h.cmp_eq_lt, compareOfLessAndEq, if_pos h]
  · rw [h.cmp_eq_eq, compareOfLessAndEq, if_neg h.not_lt, if_pos h]
  · rw [h.cmp_eq_gt, compareOfLessAndEq, if_neg h.not_gt, if_neg h.ne']

/-- Integers compare as rational numbers. -/
theorem cmp_intCast (m n : ℤ) : cmp (m : ℚ) n = cmp m n :=
  (Int.cast_strictMono : StrictMono fun i : ℤ => (i : ℚ)).cmp_map_eq m n

namespace Decimal

open Text

variable {a b : Decimal}

/-- The number that a decimal is. -/
def value (a : Decimal) : ℚ := a.digits * 10 ^ (-a.scale)

theorem value_neg (a : Decimal) : a.neg.value = -a.value := by
  rw [neg, value, value]
  push_cast
  ring

theorem value_pos_iff : 0 < a.value ↔ 0 < a.digits := by
  rw [value, mul_pos_iff_of_pos_right (by positivity), Int.cast_pos]

theorem value_neg_iff : a.value < 0 ↔ a.digits < 0 := by
  rw [← neg_pos, ← value_neg, value_pos_iff, neg, Int.neg_pos]

/-- The place of the leading digit bounds a decimal above zero. -/
theorem magnitude_spec (ha : 0 < a.digits) :
    (10 : ℚ) ^ (a.magnitude - 1) ≤ a.value ∧ a.value < 10 ^ a.magnitude := by
  have h := digits_mul_pow (Int.natAbs_pos.2 ha.ne') (-a.scale)
  have hcast : ((a.digits.natAbs : ℕ) : ℚ) = a.digits := by
    rw [Nat.cast_natAbs, abs_of_pos ha]
  rw [hcast] at h
  exact h

/-- Of two numbers above zero, the one whose leading digit is further left is larger. -/
theorem value_lt_of_magnitude_lt (ha : 0 < a.digits) (hb : 0 < b.digits)
    (h : a.magnitude < b.magnitude) : a.value < b.value :=
  calc a.value < 10 ^ a.magnitude := (magnitude_spec ha).2
    _ ≤ 10 ^ (b.magnitude - 1) := zpow_le_zpow_right₀ (by norm_num) (by omega)
    _ ≤ b.value := (magnitude_spec hb).1

/-- At a scale that is large enough a decimal is an integer. -/
theorem digitsAt_cast {scale : ℤ} (h : a.scale ≤ scale) :
    (a.digitsAt scale : ℚ) = a.value * 10 ^ scale := by
  rw [digitsAt, value, mul_assoc, ← zpow_add₀ (by norm_num)]
  push_cast
  rw [tenPow_of_nonneg (by omega)]
  congr 2
  ring

theorem compareAligned_eq_cmp (a b : Decimal) : a.compareAligned b = cmp a.value b.value := by
  rw [compareAligned, compareOfLessAndEq_eq_cmp, ← cmp_intCast,
    digitsAt_cast (le_max_left a.scale b.scale), digitsAt_cast (le_max_right a.scale b.scale)]
  exact cmp_mul_pos_right (by positivity) _ _

theorem comparePositive_eq_cmp (ha : 0 < a.digits) (hb : 0 < b.digits) :
    a.comparePositive b = cmp a.value b.value := by
  rw [comparePositive, compareOfLessAndEq_eq_cmp, compareAligned_eq_cmp]
  rcases lt_trichotomy a.magnitude b.magnitude with hlt | heq | hgt
  · rw [hlt.cmp_eq_lt, (value_lt_of_magnitude_lt ha hb hlt).cmp_eq_lt]
    rfl
  · rw [heq, cmp_self_eq_eq]
    rfl
  · rw [hgt.cmp_eq_gt, (value_lt_of_magnitude_lt hb ha hgt).cmp_eq_gt]
    rfl

/-- **Decimals compare as the numbers that they are**, whatever their scales. -/
theorem compare_eq_cmp (a b : Decimal) : a.compare b = cmp a.value b.value := by
  unfold compare
  split_ifs with ha hb ha' hb'
  · exact comparePositive_eq_cmp ha hb
  · have hle : b.value ≤ 0 := not_lt.1 fun h => hb (value_pos_iff.1 h)
    exact (hle.trans_lt (value_pos_iff.2 ha)).cmp_eq_gt.symm
  · rw [comparePositive_eq_cmp (Int.neg_pos.2 hb') (Int.neg_pos.2 ha'), value_neg, value_neg]
    have hneg : StrictAnti fun x : ℚ => -x := fun _ _ => neg_lt_neg
    exact hneg.cmp_map_eq b.value a.value
  · have hle : 0 ≤ b.value := not_lt.1 fun h => hb' (value_neg_iff.1 h)
    exact ((value_neg_iff.2 ha').trans_le hle).cmp_eq_lt.symm
  · -- a zero: the sign of the other one decides
    have hzero : a.value = 0 := by
      rw [value, le_antisymm (not_lt.1 ha) (not_lt.1 ha'), Int.cast_zero, zero_mul]
    rw [hzero, compareOfLessAndEq_eq_cmp]
    rcases lt_trichotomy 0 b.digits with hlt | heq | hgt
    · rw [hlt.cmp_eq_lt, (value_pos_iff.2 hlt).cmp_eq_lt]
    · rw [← heq, cmp_self_eq_eq, value, ← heq, Int.cast_zero, zero_mul, cmp_self_eq_eq]
    · rw [hgt.cmp_eq_gt, (value_neg_iff.2 hgt).cmp_eq_gt]

theorem compare_eq_of_value (h : a.value = b.value) : a.compare b = .eq := by
  rw [compare_eq_cmp, h, cmp_self_eq_eq]

theorem value_ofInt (n : ℤ) : (ofInt n).value = n := by
  rw [ofInt, value, neg_zero, zpow_zero, mul_one]

end Decimal

end RecordFilter.Number

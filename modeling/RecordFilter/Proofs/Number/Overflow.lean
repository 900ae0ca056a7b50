import RecordFilter.Proofs.Number.Nearest

/-!
# Overflow

The largest number of a format is `2 ^ p - 1` units of the largest exponent, and rounding ends half
a unit above it (`Format.overflow`). What is less is nearest to a number of the format; what is as
much or more, the half way point with it, is nearest to one with a larger exponent, for which the
format has no room (`Nearest.le_maxExp_iff`).
-/

namespace RecordFilter.Number.Format

variable {f : Format} {m : ℕ} {e : ℤ} {x : ℚ}

/-- The least number that is not rounded to one of the format: half a unit above the largest one. -/
def overflow (f : Format) : ℚ := (2 ^ (f.precision : ℤ) - 1 / 2) * 2 ^ f.maxExp

theorem overflow_eq (f : Format) :
    f.overflow = 2 ^ (f.precision + f.maxExp) - 2 ^ (f.maxExp - 1) := by
  rw [overflow, sub_mul, zpow_add₀ two_ne_zero, zpow_sub_one₀ two_ne_zero]
  ring

theorem overflow_single : single.overflow = 2 ^ (128 : ℤ) - 2 ^ (103 : ℤ) := single.overflow_eq

theorem overflow_double : double.overflow = 2 ^ (1024 : ℤ) - 2 ^ (970 : ℤ) := double.overflow_eq

theorem two_zpow (k : ℤ) : (2 : ℚ) ^ k = 2 * 2 ^ (k - 1) := by
  rw [← zpow_one_add₀ two_ne_zero]
  congr 1
  ring

/-- The last power of two before the end of the format, and the first one behind it. -/
theorem overflow_bounds (f : Format) :
    2 ^ (f.precision + f.maxExp - 1) ≤ f.overflow ∧
      f.overflow ≤ 2 ^ (f.precision + f.maxExp) := by
  have hle : (2 : ℚ) ^ (f.maxExp - 1) ≤ 2 ^ (f.precision + f.maxExp - 1) :=
    zpow_le_zpow_right₀ (by norm_num) (by omega)
  have hpos : (0 : ℚ) < 2 ^ (f.maxExp - 1) := by positivity
  rw [overflow_eq]
  exact ⟨by linarith [two_zpow (f.precision + f.maxExp)], by linarith⟩

/-- Of formats of one precision, those with larger exponents end later. -/
theorem overflow_mono {e k : ℤ} (h : e ≤ k) :
    (2 ^ (f.precision : ℤ) - 1 / 2 : ℚ) * 2 ^ e ≤ (2 ^ (f.precision : ℤ) - 1 / 2) * 2 ^ k := by
  have hone : (1 : ℚ) ≤ 2 ^ (f.precision : ℤ) := one_le_zpow₀ (by norm_num) (by omega)
  exact mul_le_mul_of_nonneg_left (zpow_le_zpow_right₀ (by norm_num) h) (by linarith)

section

variable (hp : 1 < f.precision) (h : f.Canonical m e) (hx : f.Rounds x m e)
include hp h hx

/-- What is rounded to a number of the format lies below the end. -/
theorem Rounds.lt_overflow (he : e ≤ f.maxExp) : x < f.overflow := by
  have hpos : (0 : ℚ) < 2 ^ e := by positivity
  refine lt_of_lt_of_le ?_ (overflow_mono he)
  have hm : m + 1 ≤ twoPow f.precision := h.1.1
  rcases hm.lt_or_eq with hlt | heq
  · have hlt : (m : ℚ) + 2 ≤ 2 ^ (f.precision : ℤ) := by
      rw [← twoPow_of_nonneg (by omega)]
      exact_mod_cast hlt
    have hscaled := mul_le_mul_of_nonneg_right hlt hpos.le
    linarith [hx.high]
  · -- the largest significand is odd, so the point half way above it goes up
    have hodd : ¬ Even m := by
      rw [← Nat.even_add_one, heq, twoPow_precision hp]
      exact even_two_mul _
    have hvalue : (m : ℚ) + 1 = 2 ^ (f.precision : ℤ) := by
      rw [← twoPow_of_nonneg (by omega)]
      exact_mod_cast heq
    rw [← hvalue]
    linarith [(hx.ends hodd).2]

/-- What is rounded to a larger exponent does not. -/
theorem Rounds.overflow_le (he : f.maxExp < e) : f.overflow ≤ x := by
  have hmin : f.minExp < e := f.minExp_le_maxExp.trans_lt he
  have hm : twoPow (f.precision - 1) ≤ m := h.2.resolve_right hmin.ne'
  have hpred := twoPow_pred hp
  have hfull := two_zpow f.precision
  have hhalf := two_zpow e
  have hpos : (0 : ℚ) < 2 ^ (e - 1) := by positivity
  calc f.overflow ≤ (2 ^ (f.precision : ℤ) - 1 / 2) * 2 ^ (e - 1) := overflow_mono (by omega)
    _ ≤ m * 2 ^ e - f.gapBelow m e / 2 := by
      rw [gapBelow]
      split
      · next hgap =>
        -- the power of two, with a gap of half a unit below it
        rw [hgap.1, hpred, hfull, hhalf]
        linarith
      · next hgap =>
        have hnext : (2 : ℚ) ^ ((f.precision : ℤ) - 1) + 1 ≤ m := by
          rw [← hpred]
          exact_mod_cast hm.lt_of_ne fun heq => hgap ⟨heq.symm, hmin⟩
        have hscaled := mul_le_mul_of_nonneg_right hnext hpos.le
        rw [hhalf, hfull]
        linarith
    _ ≤ x := hx.low

end

/-- **The nearest number is within the format** if and only if the number is below the end. -/
theorem Nearest.le_maxExp_iff (hp : 1 < f.precision) (h : f.Nearest x m e) (hx : 0 ≤ x) :
    e ≤ f.maxExp ↔ x < f.overflow := by
  have hrounds := h.rounds hp hx
  refine ⟨hrounds.lt_overflow hp h.canonical, fun hlt => not_lt.1 fun he => ?_⟩
  exact absurd hlt (not_lt.2 (hrounds.overflow_le hp h.canonical he))

end RecordFilter.Number.Format

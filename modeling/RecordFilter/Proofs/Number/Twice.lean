import RecordFilter.Proofs.Number.Rounding

/-!
# Rounding twice

A number that is rounded to a wide format and then to a narrow one ends as if it had been rounded to
the narrow one at once, unless the first rounding has moved it onto a point midway between two
numbers of the narrow format (`Nearest.through`). The midpoints are numbers of the wide format, so
rounding to it never carries a number across one of them.
-/

namespace RecordFilter.Number.Format

variable {f g : Format} {m n a : ℕ} {e k i : ℤ} {x y : ℚ}

/-- `x` lies midway between a number of the format and the next one. -/
def Midway (f : Format) (x : ℚ) : Prop := ∃ m e, f.Canonical m e ∧ x = m * 2 ^ e + 2 ^ e / 2

/-- The wide format has one bit more than the narrow one, and one place below its least number. -/
structure Refines (f g : Format) : Prop where
  precision : g.precision < f.precision
  minExp : f.minExp < g.minExp

theorem double_refines_single : double.Refines single := ⟨by decide, by decide⟩

/-- The midpoints of the narrow format are numbers of the wide one. -/
theorem Refines.reaches_half (h : f.Refines g) (hr : g.Reaches a i) :
    f.Reaches (2 * a + 1) (i - 1) ∧
      ((2 * a + 1 : ℕ) : ℚ) * 2 ^ (i - 1) = a * 2 ^ i + 2 ^ i / 2 := by
  have hpow : 2 * twoPow g.precision ≤ twoPow f.precision := by
    have hle : (2 : ℚ) ^ ((1 : ℤ) + g.precision) ≤ 2 ^ (f.precision : ℤ) :=
      zpow_le_zpow_right₀ (by norm_num) (by have := h.precision; omega)
    rw [zpow_one_add₀ two_ne_zero, ← twoPow_of_nonneg (by omega),
      ← twoPow_of_nonneg (by omega)] at hle
    exact_mod_cast hle
  have hlt := hr.1
  refine ⟨⟨by omega, by have := hr.2; have := h.minExp; omega⟩, ?_⟩
  rw [zpow_sub_one₀ two_ne_zero]
  push_cast
  ring

/-- **Rounding twice is rounding once**, unless the first rounding ends midway. -/
theorem Nearest.through (hg : 1 < g.precision) (href : f.Refines g) (hx : 0 ≤ x)
    (hy : f.Nearest x n k) (hz : g.Nearest (n * 2 ^ k) m e)
    (hmid : x = n * 2 ^ k ∨ ¬ g.Midway (n * 2 ^ k)) : g.Nearest x m e := by
  rcases hmid with heq | hmid
  · rwa [← heq] at hz
  have hrounds := hz.rounds hg (by positivity)
  -- a midpoint lies on one side of both numbers
  have hbelow : ∀ a i, g.Canonical a i → (n : ℚ) * 2 ^ k ≤ a * 2 ^ i + 2 ^ i / 2 →
      x < a * 2 ^ i + 2 ^ i / 2 := by
    intro a i ha hle
    obtain ⟨hr, hvalue⟩ := href.reaches_half ha.1
    rw [← hvalue]
    refine hy.lt_of_lt hr ?_
    rw [hvalue]
    exact lt_of_le_of_ne hle fun heq => hmid ⟨a, i, ha, heq⟩
  have habove : ∀ a i, g.Canonical a i → (a : ℚ) * 2 ^ i + 2 ^ i / 2 ≤ n * 2 ^ k →
      (a : ℚ) * 2 ^ i + 2 ^ i / 2 < x := by
    intro a i ha hle
    obtain ⟨hr, hvalue⟩ := href.reaches_half ha.1
    rw [← hvalue]
    refine hy.lt_of_gt hr ?_
    rw [hvalue]
    exact lt_of_le_of_ne hle fun heq => hmid ⟨a, i, ha, heq.symm⟩
  have hhigh := hbelow m e hz.canonical hrounds.high
  have hlow : (m : ℚ) * 2 ^ e - g.gapBelow m e / 2 < x := by
    rcases Nat.eq_zero_or_pos m with rfl | hm
    · have hgap := gapBelow_pos (f := g) (m := 0) (e := e)
      rw [Nat.cast_zero, zero_mul]
      linarith
    · obtain ⟨b, j, hb, hgap, hvalue⟩ := hz.canonical.exists_below hg hm
      have hle := hrounds.low
      rw [hgap] at hle ⊢
      have hlt := habove b j hb (by linarith)
      linarith
  exact Rounds.nearest hg ⟨hlow.le, hhigh.le, fun _ => ⟨hlow, hhigh⟩⟩ hz.canonical

end RecordFilter.Number.Format

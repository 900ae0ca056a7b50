import RecordFilter.Number.Binary
import RecordFilter.Proofs.Number.Powers

/-!
# The nearest number of a format

A float `m * 2 ^ e` is nearest to `x` if no other number of its format is nearer, and if it is even
where another one is as near (`Format.Nearest`). The numbers to which it is nearest form an interval
that reaches half way to both neighbours (`nearest_iff_rounds`), and there is only one nearest
number (`Nearest.unique`).

The format is taken as if it had no largest number: beyond it the nearest number is one that the
format has no room for, which `ofParts` makes an infinity.
-/

namespace RecordFilter.Number

/-! ## Numbers of a format -/

namespace Format

/-- `m * 2 ^ e` is a number of the format, were there no largest one. -/
def Reaches (f : Format) (m : ℕ) (e : ℤ) : Prop := m < twoPow f.precision ∧ f.minExp ≤ e

/-- `m * 2 ^ e` in the one way in which the format writes it, were there no largest number. -/
def Canonical (f : Format) (m : ℕ) (e : ℤ) : Prop :=
  f.Reaches m e ∧ (twoPow (f.precision - 1) ≤ m ∨ e = f.minExp)

/-- The distance of `m * 2 ^ e` from the next number below. -/
def gapBelow (f : Format) (m : ℕ) (e : ℤ) : ℚ :=
  if m = twoPow (f.precision - 1) ∧ f.minExp < e then 2 ^ (e - 1) else 2 ^ e

variable {f : Format} {m n a : ℕ} {e k i : ℤ} {x : ℚ}

theorem holds_iff : f.Holds m e ↔ f.Canonical m e ∧ e ≤ f.maxExp := by
  simp only [Holds, Canonical, Reaches]
  tauto

/-- A number of the format on a finer grid. -/
theorem exists_multiple (hek : e ≤ k) (n : ℕ) : ∃ a : ℕ, (n : ℚ) * 2 ^ k = a * 2 ^ e := by
  obtain ⟨j, rfl⟩ : ∃ j : ℕ, k = e + j := ⟨(k - e).toNat, by omega⟩
  refine ⟨n * 2 ^ j, ?_⟩
  rw [zpow_add₀ two_ne_zero, zpow_natCast]
  push_cast
  ring

theorem Reaches.lt (h : f.Reaches n k) : (n : ℚ) * 2 ^ k < 2 ^ (f.precision + k) := by
  have hn : (n : ℚ) < 2 ^ (f.precision : ℤ) := by
    rw [← twoPow_of_nonneg (by omega)]
    exact_mod_cast h.1
  rw [zpow_add₀ two_ne_zero]
  exact mul_lt_mul_of_pos_right hn (by positivity)

variable (hp : 1 < f.precision)
include hp

theorem twoPow_pred : (twoPow (f.precision - 1) : ℚ) = 2 ^ ((f.precision : ℤ) - 1) :=
  twoPow_of_nonneg (by omega)

theorem twoPow_precision : twoPow f.precision = 2 * twoPow (f.precision - 1) := by
  obtain ⟨q, hq⟩ := Nat.exists_eq_add_of_le hp
  have h₁ : (f.precision : ℤ).toNat = q + 2 := by omega
  have h₂ : ((f.precision : ℤ) - 1).toNat = q + 1 := by omega
  rw [twoPow, twoPow, h₁, h₂]
  exact pow_succ' 2 (q + 1)

theorem even_twoPow_pred : Even (twoPow (f.precision - 1)) := by
  obtain ⟨q, hq⟩ := Nat.exists_eq_add_of_le hp
  have h : ((f.precision : ℤ) - 1).toNat = q + 1 := by omega
  rw [twoPow, h]
  exact ⟨2 ^ q, (pow_succ' 2 q).trans (two_mul _)⟩

theorem Canonical.le_of_lt (h : f.Canonical m e) (he : f.minExp < e) :
    2 ^ (f.precision - 1 + e) ≤ (m : ℚ) * 2 ^ e := by
  have hm : (2 : ℚ) ^ ((f.precision : ℤ) - 1) ≤ m := by
    rw [← twoPow_pred hp]
    exact_mod_cast h.2.resolve_right (by omega)
  rw [zpow_add₀ two_ne_zero]
  exact mul_le_mul_of_nonneg_right hm (by positivity)

/-- No number of the format is less than one unit above another. -/
theorem Canonical.gap_above (h : f.Canonical m e) (hr : f.Reaches n k)
    (hlt : (m : ℚ) * 2 ^ e < n * 2 ^ k) : (m : ℚ) * 2 ^ e + 2 ^ e ≤ n * 2 ^ k := by
  rcases le_or_gt e k with hek | hek
  · obtain ⟨a, ha⟩ := exists_multiple hek n
    rw [ha] at hlt ⊢
    have hma : (m : ℚ) < a := lt_of_mul_lt_mul_right hlt (by positivity)
    have hma : (m : ℚ) + 1 ≤ a := by exact_mod_cast hma
    calc (m : ℚ) * 2 ^ e + 2 ^ e = (m + 1) * 2 ^ e := by ring
      _ ≤ a * 2 ^ e := mul_le_mul_of_nonneg_right hma (by positivity)
  · -- a number on a finer grid is below all of this binade
    have hmin : f.minExp < e := lt_of_le_of_lt hr.2 hek
    have hle : (2 : ℚ) ^ (f.precision + k) ≤ 2 ^ ((f.precision : ℤ) - 1 + e) :=
      zpow_le_zpow_right₀ (by norm_num) (by omega)
    exact absurd (hlt.trans (hr.lt.trans_le (hle.trans (h.le_of_lt hp hmin)))) (lt_irrefl _)

/-- Nor less than the gap below it. -/
theorem Canonical.gap_below (h : f.Canonical m e) (hr : f.Reaches n k)
    (hlt : (n : ℚ) * 2 ^ k < m * 2 ^ e) : (n : ℚ) * 2 ^ k ≤ m * 2 ^ e - f.gapBelow m e := by
  have hunit : e ≤ k → (n : ℚ) * 2 ^ k ≤ m * 2 ^ e - 2 ^ e := by
    intro hek
    obtain ⟨a, ha⟩ := exists_multiple hek n
    rw [ha] at hlt ⊢
    have ham : (a : ℚ) < m := lt_of_mul_lt_mul_right hlt (by positivity)
    have ham : (a : ℚ) + 1 ≤ m := by exact_mod_cast ham
    calc (a : ℚ) * 2 ^ e = (a + 1) * 2 ^ e - 2 ^ e := by ring
      _ ≤ m * 2 ^ e - 2 ^ e := sub_le_sub_right (mul_le_mul_of_nonneg_right ham (by positivity)) _
  rw [gapBelow]
  split
  · next hm =>
    rcases le_or_gt e k with hek | hek
    · refine (hunit hek).trans (sub_le_sub_left ?_ _)
      exact zpow_le_zpow_right₀ (by norm_num) (by omega)
    · -- the numbers below a power of two lie twice as close, up to `2 ^ p - 1`
      have hn : (n : ℚ) + 1 ≤ 2 ^ (f.precision : ℤ) := by
        rw [← twoPow_of_nonneg (by omega)]
        exact_mod_cast hr.1
      have hm' : (m : ℚ) * 2 ^ e = 2 ^ (f.precision : ℤ) * 2 ^ (e - 1) := by
        rw [hm.1, twoPow_pred hp, ← zpow_add₀ two_ne_zero, ← zpow_add₀ two_ne_zero]
        congr 1
        ring
      have hpow : (2 : ℚ) ^ k ≤ 2 ^ (e - 1) := zpow_le_zpow_right₀ (by norm_num) (by omega)
      calc (n : ℚ) * 2 ^ k ≤ n * 2 ^ (e - 1) := by gcongr
        _ = (n + 1) * 2 ^ (e - 1) - 2 ^ (e - 1) := by ring
        _ ≤ 2 ^ (f.precision : ℤ) * 2 ^ (e - 1) - 2 ^ (e - 1) := by gcongr
        _ = m * 2 ^ e - 2 ^ (e - 1) := by rw [hm']
  · next hm =>
    rcases le_or_gt e k with hek | hek
    · exact hunit hek
    · have hmin : f.minExp < e := lt_of_le_of_lt hr.2 hek
      have hpred : twoPow (f.precision - 1) + 1 ≤ m := by
        have := h.2.resolve_right (by omega)
        omega
      have hpred : (2 : ℚ) ^ ((f.precision : ℤ) - 1) + 1 ≤ m := by
        rw [← twoPow_pred hp]
        exact_mod_cast hpred
      calc (n : ℚ) * 2 ^ k ≤ 2 ^ (f.precision + k) := hr.lt.le
        _ ≤ 2 ^ ((f.precision : ℤ) - 1 + e) := zpow_le_zpow_right₀ (by norm_num) (by omega)
        _ = (2 ^ ((f.precision : ℤ) - 1) + 1) * 2 ^ e - 2 ^ e := by
          rw [zpow_add₀ two_ne_zero]
          ring
        _ ≤ m * 2 ^ e - 2 ^ e := by gcongr

omit hp in
theorem gapBelow_pos : 0 < f.gapBelow m e := by
  unfold gapBelow
  split <;> positivity

omit hp in
theorem gapBelow_le : f.gapBelow m e ≤ 2 ^ e := by
  unfold gapBelow
  split
  · exact zpow_le_zpow_right₀ (by norm_num) (by omega)
  · exact le_rfl

/-- The number above. -/
theorem Canonical.exists_above (h : f.Canonical m e) :
    ∃ n k, f.Reaches n k ∧ (n : ℚ) * 2 ^ k = m * 2 ^ e + 2 ^ e := by
  have hle : m + 1 ≤ twoPow f.precision := h.1.1
  rcases hle.lt_or_eq with hlt | heq
  · exact ⟨m + 1, e, ⟨hlt, h.1.2⟩, by push_cast; ring⟩
  · -- the next power of two
    refine ⟨twoPow (f.precision - 1), e + 1, ⟨?_, by have := h.1.2; omega⟩, ?_⟩
    · have := twoPow_pos (f.precision - 1)
      rw [twoPow_precision hp]
      omega
    · have hm : (m : ℚ) + 1 = 2 * twoPow (f.precision - 1) := by
        exact_mod_cast heq.trans (twoPow_precision hp)
      rw [zpow_add_one₀ two_ne_zero]
      linear_combination (-2 ^ e : ℚ) * hm

/-- The number below, of a number above zero. -/
theorem Canonical.exists_below (h : f.Canonical m e) (hm : 0 < m) :
    ∃ n k, f.Canonical n k ∧ f.gapBelow m e = 2 ^ k ∧ (n : ℚ) * 2 ^ k = m * 2 ^ e - 2 ^ k := by
  have hpos := twoPow_pos (f.precision - 1)
  have hprecision := twoPow_precision hp
  rw [gapBelow]
  split
  · next hpred =>
    refine ⟨twoPow f.precision - 1, e - 1, ⟨⟨by omega, by omega⟩, .inl (by omega)⟩, rfl, ?_⟩
    have hm : (twoPow f.precision : ℚ) = 2 * m := by
      rw [hpred.1]
      exact_mod_cast hprecision
    have he : (2 : ℚ) ^ e = 2 * 2 ^ (e - 1) := by
      rw [← zpow_one_add₀ two_ne_zero]
      congr 1
      ring
    rw [Nat.cast_sub (by omega), hm, he]
    push_cast
    ring
  · next hpred =>
    refine ⟨m - 1, e, ⟨⟨lt_of_le_of_lt (Nat.sub_le _ _) h.1.1, h.1.2⟩, ?_⟩, rfl, ?_⟩
    · have hmin := h.1.2
      rcases h.2 with hle | he
      · omega
      · exact .inr he
    · rw [Nat.cast_sub hm]
      push_cast
      ring

/-! ## The interval of a number -/

omit hp in
/-- What is rounded to `m * 2 ^ e`: the numbers up to half way to both neighbours, and the two that
lie half way if `m` is even. -/
structure Rounds (f : Format) (x : ℚ) (m : ℕ) (e : ℤ) : Prop where
  low : (m : ℚ) * 2 ^ e - f.gapBelow m e / 2 ≤ x
  high : x ≤ (m : ℚ) * 2 ^ e + 2 ^ e / 2
  ends : ¬ Even m → (m : ℚ) * 2 ^ e - f.gapBelow m e / 2 < x ∧ x < (m : ℚ) * 2 ^ e + 2 ^ e / 2

omit hp in
/-- What is rounded to a float is at most half a unit away from it. -/
theorem Rounds.bounds (h : f.Rounds x m e) :
    (m : ℚ) * 2 ^ e - 2 ^ e / 2 ≤ x ∧ x ≤ m * 2 ^ e + 2 ^ e / 2 :=
  ⟨by linarith [h.low, gapBelow_le (f := f) (m := m) (e := e)], h.high⟩

/-- `m * 2 ^ e` is the number of the format nearest to `x`: none is nearer, and it is even if
another one is as near. -/
structure Nearest (f : Format) (x : ℚ) (m : ℕ) (e : ℤ) : Prop where
  canonical : f.Canonical m e
  le : ∀ n k, f.Reaches n k → |x - m * 2 ^ e| ≤ |x - n * 2 ^ k|
  even : ∀ n k, f.Reaches n k → |x - m * 2 ^ e| = |x - n * 2 ^ k| →
    Even m ∨ (n : ℚ) * 2 ^ k = m * 2 ^ e

theorem Rounds.nearest (hx : f.Rounds x m e) (h : f.Canonical m e) : f.Nearest x m e := by
  have hcloser : ∀ n k, f.Reaches n k → (n : ℚ) * 2 ^ k ≠ m * 2 ^ e →
      |x - m * 2 ^ e| ≤ |x - n * 2 ^ k| ∧ (¬ Even m → |x - m * 2 ^ e| < |x - n * 2 ^ k|) := by
    intro n k hr hne
    have hlow := hx.low
    have hhigh := hx.high
    have hunit : (0 : ℚ) < 2 ^ e := by positivity
    have hgap := gapBelow_pos (f := f) (m := m) (e := e)
    rcases hne.lt_or_gt with hlt | hlt
    · have hbelow := h.gap_below hp hr hlt
      refine ⟨le_trans (abs_le.2 ⟨?_, ?_⟩) (le_abs_self _), fun hodd => ?_⟩
      · linarith
      · linarith
      · obtain ⟨hlow, -⟩ := hx.ends hodd
        exact lt_of_lt_of_le (abs_lt.2 ⟨by linarith, by linarith⟩) (le_abs_self _)
    · have habove := h.gap_above hp hr hlt
      refine ⟨le_trans (abs_le.2 ⟨?_, ?_⟩) (neg_le_abs _), fun hodd => ?_⟩
      · linarith
      · linarith
      · obtain ⟨-, hhigh⟩ := hx.ends hodd
        exact lt_of_lt_of_le (abs_lt.2 ⟨by linarith, by linarith⟩) (neg_le_abs _)
  refine ⟨h, fun n k hr => ?_, fun n k hr heq => ?_⟩
  · by_cases hne : (n : ℚ) * 2 ^ k = m * 2 ^ e
    · rw [hne]
    · exact (hcloser n k hr hne).1
  · by_contra hneither
    obtain ⟨hodd, hne⟩ := not_or.1 hneither
    exact absurd heq ((hcloser n k hr hne).2 hodd).ne

theorem Nearest.rounds (h : f.Nearest x m e) (hx : 0 ≤ x) : f.Rounds x m e := by
  have hunit : (0 : ℚ) < 2 ^ e := by positivity
  have hgap := gapBelow_pos (f := f) (m := m) (e := e)
  obtain ⟨a, i, ha, hvalue⟩ := h.canonical.exists_above hp
  have habove := h.le a i ha
  have hevenAbove := h.even a i ha
  rw [hvalue] at habove hevenAbove
  have hhigh : x ≤ (m : ℚ) * 2 ^ e + 2 ^ e / 2 := by
    by_contra hlt
    have hlt := not_le.1 hlt
    have hcloser : |x - (m * 2 ^ e + 2 ^ e)| < x - m * 2 ^ e :=
      abs_lt.2 ⟨by linarith, by linarith⟩
    exact absurd (habove.trans_lt hcloser) (not_lt.2 (le_abs_self _))
  have hends : ¬ Even m → x ≠ (m : ℚ) * 2 ^ e + 2 ^ e / 2 := by
    rintro hodd rfl
    rcases hevenAbove (by rw [abs_of_nonneg (by linarith), abs_of_nonpos (by linarith)]; ring) with
      heven | heq
    · exact hodd heven
    · linarith
  rcases Nat.eq_zero_or_pos m with rfl | hm
  · refine ⟨?_, hhigh, fun hodd => absurd Even.zero hodd⟩
    rw [Nat.cast_zero, zero_mul]
    linarith
  · obtain ⟨b, j, hb, hgapBelow, hvalue⟩ := h.canonical.exists_below hp hm
    have hbelow := h.le b j hb.1
    have hevenBelow := h.even b j hb.1
    rw [hvalue, ← hgapBelow] at hbelow hevenBelow
    have hlow : (m : ℚ) * 2 ^ e - f.gapBelow m e / 2 ≤ x := by
      by_contra hlt
      have hlt := not_le.1 hlt
      have hcloser : |x - (m * 2 ^ e - f.gapBelow m e)| < -(x - m * 2 ^ e) :=
        abs_lt.2 ⟨by linarith, by linarith⟩
      exact absurd (hbelow.trans_lt hcloser) (not_lt.2 (neg_le_abs _))
    refine ⟨hlow, hhigh, fun hodd => ⟨lt_of_le_of_ne hlow ?_, lt_of_le_of_ne hhigh (hends hodd)⟩⟩
    rintro rfl
    rcases hevenBelow (by rw [abs_of_nonpos (by linarith), abs_of_nonneg (by linarith)]; ring) with
      heven | heq
    · exact hodd heven
    · linarith

/-- **The nearest number is the one in whose interval `x` lies.** -/
theorem nearest_iff_rounds (hx : 0 ≤ x) :
    f.Nearest x m e ↔ f.Canonical m e ∧ f.Rounds x m e :=
  ⟨fun h => ⟨h.canonical, h.rounds hp hx⟩, fun h => h.2.nearest hp h.1⟩

/-! ## Among the numbers of the format -/

/-- A number of the format is the nearest one to itself. -/
theorem Canonical.nearest_self (h : f.Canonical m e) : f.Nearest (m * 2 ^ e) m e := by
  have hgap := gapBelow_pos (f := f) (m := m) (e := e)
  have hunit : (0 : ℚ) < 2 ^ e := by positivity
  exact Rounds.nearest hp ⟨by linarith, by linarith, fun _ => ⟨by linarith, by linarith⟩⟩ h

omit hp in
/-- Rounding does not carry a number across one of the format. -/
theorem Nearest.lt_of_lt (h : f.Nearest x n k) (hr : f.Reaches a i)
    (hlt : (n : ℚ) * 2 ^ k < a * 2 ^ i) : x < a * 2 ^ i := by
  by_contra hle
  have hle := not_lt.1 hle
  have hnearer := h.le a i hr
  rw [abs_of_nonneg (by linarith), abs_of_nonneg (by linarith)] at hnearer
  linarith

omit hp in
theorem Nearest.lt_of_gt (h : f.Nearest x n k) (hr : f.Reaches a i)
    (hlt : (a : ℚ) * 2 ^ i < n * 2 ^ k) : (a : ℚ) * 2 ^ i < x := by
  by_contra hle
  have hle := not_lt.1 hle
  have hnearer := h.le a i hr
  rw [abs_of_nonpos (by linarith), abs_of_nonpos (by linarith)] at hnearer
  linarith

omit hp in
/-- A number of the format is nearest to itself. -/
theorem Nearest.eq_of_reaches (h : f.Nearest (a * 2 ^ i) m e) (hr : f.Reaches a i) :
    (m : ℚ) * 2 ^ e = a * 2 ^ i := by
  have hle := h.le a i hr
  rw [sub_self, abs_zero] at hle
  linarith [abs_nonpos_iff.1 hle]

/-! ## Only one -/

theorem Canonical.le_exponent (h : f.Canonical m e) (h' : f.Canonical n k)
    (heq : (m : ℚ) * 2 ^ e = n * 2 ^ k) : k ≤ e := by
  by_contra hlt
  have hlt := not_le.1 hlt
  have hmin : f.minExp < k := lt_of_le_of_lt h.1.2 hlt
  have hle : (2 : ℚ) ^ (f.precision + e) ≤ 2 ^ ((f.precision : ℤ) - 1 + k) :=
    zpow_le_zpow_right₀ (by norm_num) (by omega)
  exact absurd heq (h.1.lt.trans_le (hle.trans (h'.le_of_lt hp hmin))).ne

/-- The format writes a number in one way. -/
theorem Canonical.unique (h : f.Canonical m e) (h' : f.Canonical n k)
    (heq : (m : ℚ) * 2 ^ e = n * 2 ^ k) : m = n ∧ e = k := by
  obtain rfl : e = k := le_antisymm (h'.le_exponent hp h heq.symm) (h.le_exponent hp h' heq)
  exact ⟨by exact_mod_cast mul_right_cancel₀ (by positivity) heq, rfl⟩

/-- Two neighbours are not both even. -/
theorem Canonical.not_even_above (h : f.Canonical m e) (h' : f.Canonical n k)
    (heq : (n : ℚ) * 2 ^ k = m * 2 ^ e + 2 ^ e) (hm : Even m) : ¬ Even n := by
  have hpred := twoPow_precision hp
  have hne : m + 1 ≠ twoPow f.precision := by
    obtain ⟨a, ha⟩ := hm
    omega
  have hlt : m + 1 < twoPow f.precision := lt_of_le_of_ne h.1.1 hne
  have habove : f.Canonical (m + 1) e := ⟨⟨hlt, h.1.2⟩, h.2.imp_left fun hle => by omega⟩
  obtain ⟨rfl, -⟩ := h'.unique hp habove (by rw [heq]; push_cast; ring)
  exact Nat.not_even_iff_odd.2 hm.add_one

theorem Nearest.not_below (h : f.Nearest x m e) (h' : f.Nearest x n k) :
    ¬ (m : ℚ) * 2 ^ e < n * 2 ^ k := by
  intro hlt
  have heq : |x - m * 2 ^ e| = |x - n * 2 ^ k| :=
    le_antisymm (h.le n k h'.canonical.1) (h'.le m e h.canonical.1)
  have hm : Even m := (h.even n k h'.canonical.1 heq).resolve_right hlt.ne'
  have hn : Even n := (h'.even m e h.canonical.1 heq.symm).resolve_right hlt.ne
  have hunit : (0 : ℚ) < 2 ^ e := by positivity
  -- `x` lies half way, so the number next to the lower one is nearer unless it is the upper one
  have hx : x - m * 2 ^ e = -(x - n * 2 ^ k) := (abs_eq_abs.1 heq).resolve_left fun h => by linarith
  have hgap := h.canonical.gap_above hp h'.canonical.1 hlt
  obtain ⟨a, i, ha, hvalue⟩ := h.canonical.exists_above hp
  rcases hgap.lt_or_eq with hbetween | hnext
  · have hnearer : |x - a * 2 ^ i| < |x - m * 2 ^ e| := by
      rw [hvalue]
      exact lt_of_lt_of_le (abs_lt.2 ⟨by linarith, by linarith⟩) (le_abs_self _)
    exact absurd (h.le a i ha) (not_le.2 hnearer)
  · exact h.canonical.not_even_above hp h'.canonical hnext.symm hm hn

/-- **There is only one nearest number.** -/
theorem Nearest.unique (h : f.Nearest x m e) (h' : f.Nearest x n k) : m = n ∧ e = k :=
  h.canonical.unique hp h'.canonical
    (le_antisymm (not_lt.1 (h'.not_below hp h)) (not_lt.1 (h.not_below hp h')))

end Format

end RecordFilter.Number

import RecordFilter.Proofs.Number.Overflow

/-!
# Rounding to the nearest number

Rounding a quotient and reading digits give the number of the format that is nearest
(`ofRatio_nearest`, `ofScientific_nearest`); whatever is nearest to the digits is what they are read
as (`ofScientific_eq`). What is rounded is finite below the end of the format, and an infinity from
there on (`IsRounded`).
-/

namespace RecordFilter.Number

/-! ## Rounding a quotient -/

/-- The nearest integer, and the even one of two. -/
theorem divNearest_spec (n : ℕ) {d : ℕ} (hd : 0 < d) :
    (divNearest n d : ℚ) - 1 / 2 ≤ n / d ∧ (n : ℚ) / d ≤ divNearest n d + 1 / 2 ∧
      (¬ Even (divNearest n d) →
        (divNearest n d : ℚ) - 1 / 2 < n / d ∧ (n : ℚ) / d < divNearest n d + 1 / 2) := by
  have hd' : (0 : ℚ) < d := by exact_mod_cast hd
  have hlt : n % d < d := Nat.mod_lt n hd
  have hn : (n : ℚ) / d = (n / d : ℕ) + ((n % d : ℕ) : ℚ) / d := by
    have h : (n : ℚ) = d * (n / d : ℕ) + (n % d : ℕ) := by exact_mod_cast (Nat.div_add_mod n d).symm
    field_simp
    linarith
  have hr : (0 : ℚ) ≤ ((n % d : ℕ) : ℚ) / d := by positivity
  have hr' : ((n % d : ℕ) : ℚ) / d < 1 := (div_lt_one hd').2 (by exact_mod_cast hlt)
  rw [hn]
  unfold divNearest
  dsimp only
  split_ifs with hlow hhigh
  · have hhalf : ((n % d : ℕ) : ℚ) / d < 1 / 2 := by
      have : (2 : ℚ) * (n % d : ℕ) < d := by exact_mod_cast hlow
      rw [div_lt_iff₀ hd']
      linarith
    exact ⟨by linarith, by linarith, fun _ => ⟨by linarith, by linarith⟩⟩
  · have hhalf : 1 / 2 < ((n % d : ℕ) : ℚ) / d := by
      have : (d : ℚ) < 2 * (n % d : ℕ) := by exact_mod_cast hhigh
      rw [lt_div_iff₀ hd']
      linarith
    push_cast
    exact ⟨by linarith, by linarith, fun _ => ⟨by linarith, by linarith⟩⟩
  · have hhalf : ((n % d : ℕ) : ℚ) / d = 1 / 2 := by
      have : (2 : ℚ) * (n % d : ℕ) = d := by
        exact_mod_cast le_antisymm (not_lt.1 hhigh) (not_lt.1 hlow)
      rw [div_eq_iff hd'.ne']
      linarith
    have heven : Even (n / d + n / d % 2) := by
      rw [Nat.even_iff]
      omega
    rw [hhalf]
    rcases Nat.mod_two_eq_zero_or_one (n / d) with h | h
    · rw [h]
      push_cast
      exact ⟨by linarith, by linarith, fun hodd => absurd (h ▸ heven) hodd⟩
    · rw [h]
      push_cast
      exact ⟨by linarith, by linarith, fun hodd => absurd (h ▸ heven) hodd⟩

/-- The power of two at or below a quotient. -/
theorem binaryMagnitude_spec {n d : ℕ} (hn : 0 < n) (hd : 0 < d) :
    (2 : ℚ) ^ binaryMagnitude n d ≤ n / d ∧ (n : ℚ) / d < 2 ^ (binaryMagnitude n d + 1) := by
  have hlog {a : ℕ} (ha : 0 < a) :
      (2 : ℚ) ^ (a.log2 : ℤ) ≤ a ∧ (a : ℚ) < 2 ^ ((a.log2 : ℤ) + 1) := by
    rw [zpow_add_one₀ two_ne_zero, zpow_natCast]
    constructor
    · exact_mod_cast Nat.log2_self_le ha.ne'
    · exact_mod_cast Nat.lt_log2_self
  obtain ⟨hn₁, hn₂⟩ := hlog hn
  obtain ⟨hd₁, hd₂⟩ := hlog hd
  have hd' : (0 : ℚ) < d := by exact_mod_cast hd
  -- the quotient of the leading bits is off by less than a factor of two, to both sides
  have hlow : (2 : ℚ) ^ ((n.log2 : ℤ) - d.log2 - 1) < n / d := by
    rw [lt_div_iff₀ hd']
    calc (2 : ℚ) ^ ((n.log2 : ℤ) - d.log2 - 1) * d
        < 2 ^ ((n.log2 : ℤ) - d.log2 - 1) * 2 ^ ((d.log2 : ℤ) + 1) := by gcongr
      _ = 2 ^ (n.log2 : ℤ) := by
        rw [← zpow_add₀ two_ne_zero]
        congr 1
        ring
      _ ≤ n := hn₁
  have hhigh : (n : ℚ) / d < 2 ^ ((n.log2 : ℤ) - d.log2 + 1) := by
    rw [div_lt_iff₀ hd']
    calc (n : ℚ) < 2 ^ ((n.log2 : ℤ) + 1) := hn₂
      _ = 2 ^ ((n.log2 : ℤ) - d.log2 + 1) * 2 ^ (d.log2 : ℤ) := by
        rw [← zpow_add₀ two_ne_zero]
        congr 1
        ring
      _ ≤ 2 ^ ((n.log2 : ℤ) - d.log2 + 1) * d := by gcongr
  have hiff : d * twoPow ((n.log2 : ℤ) - d.log2) ≤ n * twoPow (-((n.log2 : ℤ) - d.log2)) ↔
      (2 : ℚ) ^ ((n.log2 : ℤ) - d.log2) ≤ n / d := by
    have hpos : (0 : ℚ) < twoPow (-((n.log2 : ℤ) - d.log2)) := by exact_mod_cast twoPow_pos _
    rw [← twoPow_div, div_le_div_iff₀ hpos hd']
    norm_cast
    rw [mul_comm]
  unfold binaryMagnitude
  dsimp only
  split_ifs with h
  · exact ⟨hiff.1 h, hhigh⟩
  · rw [sub_add_cancel]
    exact ⟨hlow.le, not_le.1 fun hle => h (hiff.2 hle)⟩

namespace Format

variable {f : Format}

/-- What is less than half of the least number is rounded to zero. -/
theorem nearest_of_le_half {x : ℚ} (hp : 1 < f.precision) (hx : 0 ≤ x)
    (hle : x ≤ 2 ^ (f.minExp - 1)) :
    f.Nearest x 0 f.minExp := by
  have hgap := gapBelow_pos (f := f) (m := 0) (e := f.minExp)
  have hunit : (2 : ℚ) ^ f.minExp = 2 * 2 ^ (f.minExp - 1) := by
    rw [← zpow_one_add₀ two_ne_zero]
    congr 1
    ring
  refine Rounds.nearest hp ⟨?_, ?_, fun hodd => absurd Even.zero hodd⟩
    ⟨⟨twoPow_pos _, le_rfl⟩, .inr rfl⟩
  · rw [Nat.cast_zero, zero_mul]
    linarith
  · rw [Nat.cast_zero, zero_mul, hunit]
    linarith

theorem nearest_zero (hp : 1 < f.precision) : f.Nearest 0 0 f.minExp :=
  nearest_of_le_half hp le_rfl (by positivity)

/-- `m` is the nearest integer to `x` in units of `2 ^ e`, and the even one of two. -/
def NearestUnits (x : ℚ) (m : ℕ) (e : ℤ) : Prop :=
  (m : ℚ) * 2 ^ e - 2 ^ e / 2 ≤ x ∧ x ≤ (m : ℚ) * 2 ^ e + 2 ^ e / 2 ∧
    (¬ Even m → (m : ℚ) * 2 ^ e - 2 ^ e / 2 < x ∧ x < (m : ℚ) * 2 ^ e + 2 ^ e / 2)

theorem divNearest_units (n : ℕ) {d : ℕ} (hd : 0 < d) (e : ℤ) :
    NearestUnits (n / d) (divNearest (n * twoPow (-e)) (d * twoPow e)) e := by
  have hratio : ((n * twoPow (-e) : ℕ) : ℚ) / (d * twoPow e : ℕ) = n / d / 2 ^ e := by
    rw [← twoPow_div e]
    push_cast
    rw [div_div_div_eq]
  have hpos : (0 : ℚ) < 2 ^ e := by positivity
  have hspec := divNearest_spec (n * twoPow (-e)) (Nat.mul_pos hd (twoPow_pos e))
  rw [hratio, le_div_iff₀ hpos, div_le_iff₀ hpos, lt_div_iff₀ hpos, div_lt_iff₀ hpos] at hspec
  obtain ⟨hlow, hhigh, hodd⟩ := hspec
  refine ⟨by linarith, by linarith, fun h => ?_⟩
  obtain ⟨hlow, hhigh⟩ := hodd h
  exact ⟨by linarith, by linarith⟩

section

variable {m : ℕ} {e k : ℤ} {x : ℚ} (hp : 1 < f.precision)
  (he : max f.minExp (k - ((f.precision : ℤ) - 1)) = e) (hlow : 2 ^ k ≤ x) (hhigh : x < 2 ^ (k + 1))
  (hm : NearestUnits x m e)
include hp he hhigh hm

theorem NearestUnits.le_precision : m ≤ twoPow f.precision := by
  have hx : x < 2 ^ ((f.precision : ℤ) + e) :=
    hhigh.trans_le (zpow_le_zpow_right₀ (by norm_num) (by omega))
  have hpos : (0 : ℚ) < 2 ^ e := by positivity
  have hlt : ((m : ℚ) - 1 / 2) * 2 ^ e < 2 ^ (f.precision : ℤ) * 2 ^ e := by
    rw [← zpow_add₀ two_ne_zero]
    linarith [hm.1]
  have hlt : (m : ℚ) - 1 / 2 < twoPow f.precision := by
    rw [twoPow_of_nonneg (by omega)]
    exact lt_of_mul_lt_mul_right hlt hpos.le
  have hlt : (m : ℚ) < twoPow f.precision + 1 := by linarith
  exact Nat.lt_succ_iff.1 (by exact_mod_cast hlt)

/-- All bits of the precision carried over. -/
theorem NearestUnits.nearest_carry (hcarry : m = twoPow f.precision) :
    f.Nearest x (twoPow (f.precision - 1)) (e + 1) := by
  have hpred := twoPow_pos (f.precision - 1)
  have hprecision := twoPow_precision hp
  have hvalue : (twoPow (f.precision - 1) : ℚ) * 2 ^ (e + 1) = m * 2 ^ e := by
    rw [hcarry, hprecision, zpow_add_one₀ two_ne_zero]
    push_cast
    ring
  have hgap : f.gapBelow (twoPow (f.precision - 1)) (e + 1) = 2 ^ e := by
    rw [gapBelow, if_pos ⟨rfl, by omega⟩, add_sub_cancel_right]
  have hpos : (0 : ℚ) < 2 ^ e := by positivity
  have hx : x < m * 2 ^ e := by
    rw [hcarry, twoPow_of_nonneg (by omega), ← zpow_add₀ two_ne_zero]
    exact hhigh.trans_le (zpow_le_zpow_right₀ (by norm_num) (by omega))
  refine Rounds.nearest hp ⟨?_, ?_, fun hodd => absurd (even_twoPow_pred hp) hodd⟩
    ⟨⟨by omega, by omega⟩, .inl le_rfl⟩
  · rw [hvalue, hgap]
    exact hm.1
  · rw [hvalue, zpow_add_one₀ two_ne_zero]
    linarith

omit hhigh in
include hlow in
theorem NearestUnits.nearest (hlt : m < twoPow f.precision) : f.Nearest x m e := by
  have hpos : (0 : ℚ) < 2 ^ e := by positivity
  -- above the least exponent `x` fills all bits of the precision
  have hfull : e ≠ f.minExp → (twoPow (f.precision - 1) : ℚ) * 2 ^ e ≤ x := by
    intro hne
    have hk : k = (f.precision : ℤ) - 1 + e := by omega
    rw [twoPow_pred hp, ← zpow_add₀ two_ne_zero, ← hk]
    exact hlow
  have hcanonical : f.Canonical m e := by
    refine ⟨⟨hlt, by omega⟩, or_iff_not_imp_right.2 fun hne => ?_⟩
    have hle : (twoPow (f.precision - 1) : ℚ) * 2 ^ e ≤ (m + 1 / 2) * 2 ^ e := by
      linarith [hfull hne, hm.2.1]
    have hle : (twoPow (f.precision - 1) : ℚ) ≤ m + 1 / 2 := le_of_mul_le_mul_right hle hpos
    have hlt : (twoPow (f.precision - 1) : ℚ) < m + 1 := by linarith
    exact Nat.lt_succ_iff.1 (by exact_mod_cast hlt)
  refine Rounds.nearest hp ?_ hcanonical
  by_cases hgap : m = twoPow (f.precision - 1) ∧ f.minExp < e
  · have hx := hfull hgap.2.ne'
    rw [← hgap.1] at hx
    refine ⟨?_, hm.2.1, fun hodd => absurd (hgap.1 ▸ even_twoPow_pred hp) hodd⟩
    linarith [gapBelow_pos (f := f) (m := m) (e := e)]
  · have hgap : f.gapBelow m e = 2 ^ e := if_neg hgap
    refine ⟨?_, hm.2.1, ?_⟩ <;> rw [hgap]
    · exact hm.1
    · exact hm.2.2

end

end Format

namespace Binary

variable {f : Format}

/-- **Rounding gives the nearest number.** -/
theorem ofRatio_nearest (hp : 1 < f.precision) (negative : Bool) (n : ℕ) {d : ℕ} (hd : 0 < d) :
    ∃ m e, f.Nearest (n / d) m e ∧ (ofRatio negative n d : Binary f) = ofParts negative m e := by
  rcases Nat.eq_zero_or_pos n with rfl | hn
  · refine ⟨0, f.minExp, ?_, ?_⟩
    · rw [Nat.cast_zero, zero_div]
      exact Format.nearest_zero hp
    · rw [ofRatio, if_pos rfl, ofParts, dif_pos f.holds_zero]
      rfl
  obtain ⟨hlow, hhigh⟩ := binaryMagnitude_spec hn hd
  have he : ((f.precision - 1 : ℕ) : ℤ) = (f.precision : ℤ) - 1 := by omega
  unfold ofRatio
  rw [if_neg hn.ne', he]
  dsimp only
  have hunits := Format.divNearest_units n hd
    (max f.minExp (binaryMagnitude n d - ((f.precision : ℤ) - 1)))
  split_ifs with hcarry
  · exact ⟨_, _, hunits.nearest_carry hp rfl hhigh hcarry, rfl⟩
  · have hle := hunits.le_precision hp rfl hhigh
    exact ⟨_, _, hunits.nearest hp rfl hlow (lt_of_le_of_ne hle hcarry), rfl⟩

theorem ofParts_of_holds {m : ℕ} {e : ℤ} (h : f.Holds m e) (negative : Bool) :
    ofParts negative m e = finite negative m e h := dif_pos h

theorem ofParts_of_lt {m : ℕ} {e : ℤ} (h : f.maxExp < e) (negative : Bool) :
    (ofParts negative m e : Binary f) = infinite negative :=
  dif_neg fun hm => absurd hm.2.2.1 (not_le.2 h)

end Binary

/-! ## Digits and a power of ten -/

namespace Format

variable {f : Format} {m : ℕ} {e : ℤ} {x : ℚ}

/-- What reading digits asks of a format: two bits at least, and one in its range. -/
structure Proper (f : Format) : Prop where
  precision : 1 < f.precision
  minExp : f.minExp ≤ 1
  maxExp : 0 ≤ f.precision + f.maxExp

theorem single_proper : single.Proper := ⟨by decide, by decide, by decide⟩

theorem double_proper : double.Proper := ⟨by decide, by decide, by decide⟩

/-- The nearest number is beyond the largest one. -/
theorem Nearest.maxExp_lt (hp : 1 < f.precision) (h : f.Nearest x m e)
    (hx : 2 ^ (f.precision + f.maxExp) ≤ x) : f.maxExp < e := by
  have hend := h.le_maxExp_iff hp (le_trans (by positivity) hx)
  exact not_le.1 fun he => absurd (hend.1 he) (not_lt.2 (f.overflow_bounds.2.trans hx))

/-- The nearest number is within the format. -/
theorem Nearest.le_maxExp (hp : 1 < f.precision) (h : f.Nearest x m e) (hx : 0 ≤ x)
    (hlt : x < 2 ^ (f.precision + f.maxExp - 1)) : e ≤ f.maxExp :=
  (h.le_maxExp_iff hp hx).2 (hlt.trans_le f.overflow_bounds.1)

/-- What is at least the least number with all bits of the precision is rounded to such a number. -/
theorem Nearest.le_mantissa (hp : 1 < f.precision) (h : f.Nearest x m e)
    (hx : 2 ^ ((f.precision : ℤ) - 1 + f.minExp) ≤ x) : twoPow (f.precision - 1) ≤ m := by
  by_contra hlt
  have hlt := not_le.1 hlt
  obtain rfl := h.canonical.2.resolve_left (not_le.2 hlt)
  have hpos : (0 : ℚ) < 2 ^ f.minExp := by positivity
  obtain ⟨-, hhigh⟩ := (h.rounds hp (le_trans (by positivity) hx)).bounds
  have hm : (m : ℚ) + 1 ≤ 2 ^ ((f.precision : ℤ) - 1) := by
    rw [← twoPow_pred hp]
    exact_mod_cast hlt
  rw [zpow_add₀ two_ne_zero] at hx
  have hle : ((m : ℚ) + 1) * 2 ^ f.minExp ≤ 2 ^ ((f.precision : ℤ) - 1) * 2 ^ f.minExp := by gcongr
  linarith

end Format

/-- The place of the leading digit bounds a number. -/
theorem digits_mul_pow {digits : ℕ} (hd : 0 < digits) (k : ℤ) :
    10 ^ (Text.digitCount digits + k - 1) ≤ (digits : ℚ) * 10 ^ k ∧
      (digits : ℚ) * 10 ^ k < 10 ^ (Text.digitCount digits + k) := by
  have hcount := digitCount_pos digits
  have hpos : (0 : ℚ) < 10 ^ k := by positivity
  have hlow : (10 : ℚ) ^ ((Text.digitCount digits : ℤ) - 1) ≤ digits := by
    have h := pow_le_of_lt_digitCount hd (Nat.sub_lt hcount one_pos)
    have hcast : ((Text.digitCount digits - 1 : ℕ) : ℤ) = (Text.digitCount digits : ℤ) - 1 := by
      omega
    rw [← hcast, zpow_natCast]
    exact_mod_cast h
  have hhigh : (digits : ℚ) < 10 ^ (Text.digitCount digits : ℤ) := by
    rw [zpow_natCast]
    exact_mod_cast lt_pow_digitCount digits
  rw [add_sub_right_comm, zpow_add₀ (by norm_num), zpow_add₀ (by norm_num)]
  exact ⟨by gcongr, by gcongr⟩

theorem two_pow_le_ten_pow {k : ℤ} (hk : 0 ≤ k) : (2 : ℚ) ^ (3 * k) ≤ 10 ^ k := by
  rw [zpow_mul]
  exact zpow_le_zpow_left₀ hk (by norm_num) (by norm_num)

theorem ten_pow_le_two_pow {k : ℤ} (hk : k ≤ 0) : (10 : ℚ) ^ k ≤ 2 ^ (3 * k) := by
  have h := two_pow_le_ten_pow (neg_nonneg.2 hk)
  rw [mul_neg, zpow_neg, zpow_neg] at h
  exact (inv_le_inv₀ (by positivity) (by positivity)).1 h

namespace Binary

variable {f : Format}

/-- **Reading digits gives the nearest number.** -/
theorem ofScientific_nearest (hf : f.Proper) (negative : Bool) (digits : ℕ) (k : ℤ) :
    ∃ m e, f.Nearest (digits * 10 ^ k) m e ∧
      (ofScientific negative digits k : Binary f) = ofParts negative m e := by
  have hratio : ((digits * tenPow k : ℕ) : ℚ) / tenPow (-k) = digits * 10 ^ k := by
    rw [Nat.cast_mul, mul_div_assoc, tenPow_div]
  obtain ⟨m, e, h, heq⟩ :=
    ofRatio_nearest hf.precision negative (digits * tenPow k) (tenPow_pos (-k))
  rw [hratio] at h
  have hzero : (ofParts negative 0 f.minExp : Binary f) = zero negative :=
    ofParts_of_holds f.holds_zero negative
  unfold ofScientific
  dsimp only
  split_ifs with hd hlarge hsmall
  · refine ⟨0, f.minExp, ?_, hzero.symm⟩
    rw [hd, Nat.cast_zero, zero_mul]
    exact Format.nearest_zero hf.precision
  · -- the leading digit alone is beyond the largest number
    have hmax := hf.maxExp
    refine ⟨m, e, h, (ofParts_of_lt (h.maxExp_lt hf.precision ?_) negative).symm⟩
    calc (2 : ℚ) ^ (f.precision + f.maxExp)
        ≤ 2 ^ (3 * (Text.digitCount digits + k - 1)) :=
          zpow_le_zpow_right₀ (by norm_num) hlarge
      _ ≤ 10 ^ (Text.digitCount digits + k - 1) := two_pow_le_ten_pow (by omega)
      _ ≤ digits * 10 ^ k := (digits_mul_pow (Nat.pos_of_ne_zero hd) k).1
  · -- or less than half of the least one
    have hmin := hf.minExp
    refine ⟨0, f.minExp, Format.nearest_of_le_half hf.precision (by positivity) ?_, hzero.symm⟩
    calc (digits : ℚ) * 10 ^ k ≤ 10 ^ (Text.digitCount digits + k) :=
          (digits_mul_pow (Nat.pos_of_ne_zero hd) k).2.le
      _ ≤ 2 ^ (3 * (Text.digitCount digits + k)) := ten_pow_le_two_pow (by omega)
      _ ≤ 2 ^ (f.minExp - 1) := zpow_le_zpow_right₀ (by norm_num) (by omega)
  · exact ⟨m, e, h, heq⟩

/-- Whatever is nearest to the digits is what they are read as. -/
theorem ofScientific_eq {digits m : ℕ} {k e : ℤ} (hf : f.Proper)
    (h : f.Nearest (digits * 10 ^ k) m e) (negative : Bool) :
    (ofScientific negative digits k : Binary f) = ofParts negative m e := by
  obtain ⟨m', e', h', heq⟩ := ofScientific_nearest hf negative digits k
  obtain ⟨rfl, rfl⟩ := h.unique hf.precision h'
  exact heq

/-! ## Nearest floats -/

/-- The float is finite, has this sign, and is nearest to this magnitude. -/
def IsNearest (x : Binary f) (negative : Bool) (v : ℚ) : Prop :=
  ∃ m e h, x = finite negative m e h ∧ f.Nearest v m e

theorem isNearest_ofRatio (hp : 1 < f.precision) (negative : Bool) (n : ℕ) {d : ℕ} (hd : 0 < d)
    (hlt : (n : ℚ) / d < 2 ^ (f.precision + f.maxExp - 1)) :
    (ofRatio negative n d : Binary f).IsNearest negative (n / d) := by
  obtain ⟨m, e, h, heq⟩ := ofRatio_nearest hp negative n hd
  have hholds := Format.holds_iff.2 ⟨h.canonical, h.le_maxExp hp (by positivity) hlt⟩
  exact ⟨m, e, hholds, by rw [heq, ofParts_of_holds hholds], h⟩

/-- Digits are read as the float that is nearest to them. -/
theorem IsNearest.ofScientific_eq {x : Binary f} {negative : Bool} {digits : ℕ} {k : ℤ}
    (hf : f.Proper) (h : x.IsNearest negative (digits * 10 ^ k)) :
    ofScientific negative digits k = x := by
  obtain ⟨m, e, hholds, rfl, hnearest⟩ := h
  rw [Binary.ofScientific_eq hf hnearest, ofParts_of_holds hholds]

/-- The magnitude of a float; zero if it is not finite. -/
def magnitude : Binary f → ℚ
  | finite _ m e _ => m * 2 ^ e
  | _ => 0

theorem IsNearest.neg {x : Binary f} {negative : Bool} {v : ℚ} (h : x.IsNearest negative v) :
    x.neg.IsNearest (!negative) v := by
  obtain ⟨m, e, hholds, rfl, hnearest⟩ := h
  exact ⟨m, e, hholds, rfl, hnearest⟩

/-! ## Overflow -/

/-- The float is what a magnitude with a sign is rounded to: the nearest one below the end of the
format, and an infinity from there on. -/
def IsRounded (x : Binary f) (negative : Bool) (v : ℚ) : Prop :=
  v < f.overflow ∧ x.IsNearest negative v ∨ f.overflow ≤ v ∧ x = infinite negative

theorem isRounded_ofParts {m : ℕ} {e : ℤ} {v : ℚ} (hp : 1 < f.precision) (hv : 0 ≤ v)
    (h : f.Nearest v m e) (negative : Bool) :
    (ofParts negative m e : Binary f).IsRounded negative v := by
  have hend := h.le_maxExp_iff hp hv
  rcases le_or_gt e f.maxExp with he | he
  · have hholds := Format.holds_iff.2 ⟨h.canonical, he⟩
    exact .inl ⟨hend.1 he, m, e, hholds, ofParts_of_holds hholds negative, h⟩
  · exact .inr ⟨not_lt.1 fun hlt => absurd (hend.2 hlt) (not_le.2 he), ofParts_of_lt he negative⟩

theorem isRounded_ofScientific (hf : f.Proper) (negative : Bool) (digits : ℕ) (k : ℤ) :
    (ofScientific negative digits k : Binary f).IsRounded negative (digits * 10 ^ k) := by
  obtain ⟨m, e, h, heq⟩ := ofScientific_nearest hf negative digits k
  rw [heq]
  exact isRounded_ofParts hf.precision (by positivity) h negative

/-- A number of one format is rounded to another. -/
theorem convert_nearest {g : Format} (hg : 1 < g.precision) (negative : Bool) {m : ℕ} {e : ℤ}
    (h : f.Holds m e) :
    ∃ a i, g.Nearest (m * 2 ^ e) a i ∧
      ((finite negative m e h).convert : Binary g) = ofParts negative a i := by
  have hratio : ((m * twoPow e : ℕ) : ℚ) / (twoPow (-e) : ℕ) = m * 2 ^ e := by
    rw [Nat.cast_mul, mul_div_assoc, twoPow_div]
  obtain ⟨a, i, hnearest, heq⟩ := ofRatio_nearest hg negative (m * twoPow e) (twoPow_pos (-e))
  rw [hratio] at hnearest
  exact ⟨a, i, hnearest, heq⟩

theorem isRounded_convert {g : Format} (hg : 1 < g.precision) (negative : Bool) {m : ℕ} {e : ℤ}
    (h : f.Holds m e) :
    ((finite negative m e h).convert : Binary g).IsRounded negative (m * 2 ^ e) := by
  obtain ⟨a, i, hnearest, heq⟩ := convert_nearest hg negative h
  rw [heq]
  exact isRounded_ofParts hg (by positivity) hnearest negative

/-- A number of the format is rounded to itself. -/
theorem isRounded_self (hp : 1 < f.precision) (negative : Bool) {m : ℕ} {e : ℤ}
    (h : f.Holds m e) : (finite negative m e h).IsRounded negative (m * 2 ^ e) := by
  have hnearest := (Format.holds_iff.1 h).1.nearest_self hp
  have hrounded := isRounded_ofParts hp (by positivity) hnearest negative
  rwa [ofParts_of_holds h] at hrounded

theorem IsRounded.isFinite_iff {x : Binary f} {negative : Bool} {v : ℚ}
    (h : x.IsRounded negative v) : x.isFinite = true ↔ v < f.overflow := by
  rcases h with ⟨hlt, m, e, hholds, rfl, -⟩ | ⟨hle, rfl⟩
  · exact iff_of_true rfl hlt
  · exact iff_of_false Bool.false_ne_true (not_lt.2 hle)

end Binary

end RecordFilter.Number

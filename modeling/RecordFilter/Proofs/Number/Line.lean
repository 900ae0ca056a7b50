import RecordFilter.Proofs.Number.Decimals

/-!
# Floats on the number line

A float that is not NaN stands at a point of the line, the rational numbers with both infinities,
and floats compare as their points do (`Binary.compare_eq_cmp`). Changing a single into a double and
writing a float as a decimal keep the point (`position?_convert`, `exists_toDecimal?`). A small
integer is a double; a larger one is moved to a double next to it (`exists_rounded_ofInt`), which
keeps the order of integers and doubles or makes them equal, and never turns it round
(`Rounded.cmp_eq_or`, `Rounded.mono`).
-/

namespace RecordFilter.Number

open Text

/-! ## The line -/

/-- The rational numbers with an infinity at each end. -/
abbrev Line := WithBot (WithTop ℚ)

namespace Line

/-- A rational number as a point of the line. -/
def ofRat (q : ℚ) : Line := ((q : WithTop ℚ) : WithBot (WithTop ℚ))

theorem ofRat_strictMono : StrictMono ofRat := WithBot.coe_strictMono.comp WithTop.coe_strictMono

theorem ofRat_injective : Function.Injective ofRat := ofRat_strictMono.injective

@[simp] theorem cmp_ofRat (q r : ℚ) : cmp (ofRat q) (ofRat r) = cmp q r :=
  ofRat_strictMono.cmp_map_eq q r

theorem bot_lt_ofRat (q : ℚ) : ⊥ < ofRat q := WithBot.bot_lt_coe _

theorem ofRat_lt_top (q : ℚ) : ofRat q < ⊤ := WithBot.coe_lt_coe.2 (WithTop.coe_lt_top q)

/-- A point is an end of the line or a number. -/
theorem cases_point (x : Line) : x = ⊥ ∨ x = ⊤ ∨ ∃ q, x = ofRat q := by
  induction x using WithBot.recBotCoe with
  | bot => exact .inl rfl
  | coe x =>
    induction x using WithTop.recTopCoe with
    | top => exact .inr (.inl rfl)
    | coe q => exact .inr (.inr ⟨q, rfl⟩)

end Line

/-- Two numbers lie to one side of a third, or the third is one of them or between them. -/
theorem cmp_ne_cmp_iff {x y w : ℚ} (h : x ≠ y) : cmp x w ≠ cmp y w ↔ w ∈ Set.uIcc x y := by
  wlog hlt : x < y with H
  · rw [ne_comm, Set.uIcc_comm]
    exact H h.symm (h.lt_or_gt.resolve_left hlt)
  rw [Set.uIcc_of_le hlt.le, Set.mem_Icc]
  rcases lt_or_ge w x with hbelow | hx
  · rw [hbelow.cmp_eq_gt, (hbelow.trans hlt).cmp_eq_gt]
    exact iff_of_false (fun h => h rfl) fun h => hbelow.not_ge h.1
  rcases lt_or_ge y w with habove | hy
  · rw [habove.cmp_eq_lt, (hlt.trans habove).cmp_eq_lt]
    exact iff_of_false (fun h => h rfl) fun h => habove.not_ge h.2
  refine iff_of_true (fun heq => ?_) ⟨hx, hy⟩
  rcases hx.eq_or_lt with rfl | hx
  · rw [cmp_self_eq_eq, eq_comm, cmp_eq_eq_iff] at heq
    exact h heq.symm
  · rw [hx.cmp_eq_lt, eq_comm, cmp_eq_lt_iff] at heq
    exact hy.not_gt heq

/-! ## Points of floats -/

namespace Binary

variable {f g : Format}

/-- The number that a significand, an exponent and a sign make. -/
def signedValue (negative : Bool) (m : ℕ) (e : ℤ) : ℚ := (signed negative m : ℤ) * 2 ^ e

/-- The point at which a float stands; NaN stands at none. -/
def position? : Binary f → Option Line
  | finite negative m e _ => some (.ofRat (signedValue negative m e))
  | infinite negative => some (if negative then ⊥ else ⊤)
  | nan => none

theorem position?_eq_none_iff {x : Binary f} : x.position? = none ↔ x = nan := by
  cases x <;> simp [position?]

theorem signed_cast (negative : Bool) (n : ℕ) :
    ((signed negative n : ℤ) : ℚ) = if negative then -(n : ℚ) else n := by
  cases negative <;> simp [signed]

theorem signedValue_eq (negative : Bool) (m : ℕ) (e : ℤ) :
    signedValue negative m e = if negative then -(m * 2 ^ e : ℚ) else m * 2 ^ e := by
  rw [signedValue, signed_cast, ite_mul, neg_mul]

/-- Multiples of the least number of a format, as numbers. -/
theorem units_cast (negative : Bool) {m : ℕ} {e : ℤ} (he : f.minExp ≤ e) :
    (units (f := f) negative m e : ℚ) = signedValue negative m e * 2 ^ (-f.minExp) := by
  have hpow : (twoPow (e - f.minExp) : ℚ) = 2 ^ e * 2 ^ (-f.minExp) := by
    rw [twoPow_of_nonneg (by omega), ← zpow_add₀ two_ne_zero]
    rfl
  rw [signedValue_eq, units]
  cases negative <;> simp [signed, hpow, mul_assoc]

/-- **Floats compare as their points.** -/
theorem compare_eq_cmp {x y : Binary f} {a b : Line} (hx : x.position? = some a)
    (hy : y.position? = some b) : x.compare y = some (cmp a b) := by
  cases x with
  | nan => cases hx
  | infinite s =>
    cases y with
    | nan => cases hy
    | infinite t =>
      cases hx
      cases hy
      cases s <;> cases t <;> rfl
    | finite t n k h =>
      cases hx
      cases hy
      cases s with
      | false => rw [if_neg Bool.false_ne_true, (Line.ofRat_lt_top _).cmp_eq_gt, compare]; rfl
      | true => rw [if_pos rfl, (Line.bot_lt_ofRat _).cmp_eq_lt, compare]; rfl
  | finite s m e h =>
    cases y with
    | nan => cases hy
    | infinite t =>
      cases hx
      cases hy
      cases t with
      | false => rw [if_neg Bool.false_ne_true, (Line.ofRat_lt_top _).cmp_eq_lt, compare]; rfl
      | true => rw [if_pos rfl, (Line.bot_lt_ofRat _).cmp_eq_gt, compare]; rfl
    | finite t n k h' =>
      cases hx
      cases hy
      rw [compare, compareOfLessAndEq_eq_cmp, ← cmp_intCast, units_cast s h.2.1,
        units_cast t h'.2.1, cmp_mul_pos_right (by positivity), Line.cmp_ofRat]

/-- Both orders of two floats. -/
theorem compare_swap (x y : Binary f) : y.compare x = (x.compare y).map Ordering.swap := by
  cases hx : x.position? with
  | none =>
    rw [position?_eq_none_iff.1 hx]
    cases y <;> rfl
  | some a =>
    cases hy : y.position? with
    | none =>
      rw [position?_eq_none_iff.1 hy]
      cases x <;> rfl
    | some b => rw [compare_eq_cmp hx hy, compare_eq_cmp hy hx, Option.map_some, cmp_swap]

/-- Floats are the same number if they stand at one point. -/
theorem same_iff {x y : Binary f} :
    x.same y = true ↔ ∃ a, x.position? = some a ∧ y.position? = some a := by
  rw [same, beq_iff_eq]
  constructor
  · intro h
    obtain ⟨a, hx⟩ := Option.ne_none_iff_exists'.1 fun hx : x.position? = none => by
      rw [position?_eq_none_iff.1 hx] at h
      cases h
    obtain ⟨b, hy⟩ := Option.ne_none_iff_exists'.1 fun hy : y.position? = none => by
      rw [compare_swap y x, position?_eq_none_iff.1 hy] at h
      cases h
    rw [compare_eq_cmp hx hy, Option.some_inj, cmp_eq_eq_iff] at h
    exact ⟨a, hx, h ▸ hy⟩
  · rintro ⟨a, hx, hy⟩
    rw [compare_eq_cmp hx hy, cmp_self_eq_eq]

/-! ## Exact conversions -/

/-- Rounding a number of the format gives this number. -/
theorem position?_ofRatio {m n d : ℕ} {e : ℤ} (hp : 1 < f.precision) (negative : Bool) (hd : 0 < d)
    (hv : (n : ℚ) / d = m * 2 ^ e) (hr : f.Reaches m e)
    (hlt : (m : ℚ) * 2 ^ e < 2 ^ (f.precision + f.maxExp - 1)) :
    (ofRatio negative n d : Binary f).position? = some (.ofRat (signedValue negative m e)) := by
  obtain ⟨a, i, h, heq, hnearest⟩ := isNearest_ofRatio hp negative n hd (hv ▸ hlt)
  rw [hv] at hnearest
  rw [heq, position?, signedValue_eq, signedValue_eq, hnearest.eq_of_reaches hr]

/-- **A single is a double at the same point.** -/
theorem position?_convert (x : Single) : (x.convert : Double).position? = x.position? := by
  cases x with
  | nan => rfl
  | infinite s => rfl
  | finite s m e h =>
    obtain ⟨⟨⟨hm, hmin⟩, -⟩, hmax⟩ := Format.holds_iff.1 h
    have hvalue : ((m * twoPow e : ℕ) : ℚ) / (twoPow (-e) : ℕ) = m * 2 ^ e := by
      rw [Nat.cast_mul, mul_div_assoc, twoPow_div]
    have hreaches : Format.double.Reaches m e := ⟨hm.trans (by decide), hmin.trans' (by decide)⟩
    have hlt : (m : ℚ) * 2 ^ e < 2 ^ (Format.double.precision + Format.double.maxExp - 1) :=
      (Format.Reaches.lt (f := .single) ⟨hm, hmin⟩).trans_le
        (zpow_le_zpow_right₀ (by norm_num) (by
          simp only [Format.single, Format.double] at *
          omega))
    exact position?_ofRatio (by decide) s (twoPow_pos _) hvalue hreaches hlt

/-- **A small integer is a double.** -/
theorem position?_ofInt {n : ℤ} (hn : n.natAbs < twoPow Format.double.precision) :
    (ofInt n : Double).position? = some (.ofRat n) := by
  have hvalue : (n.natAbs : ℚ) / (1 : ℕ) = n.natAbs * 2 ^ (0 : ℤ) := by simp
  have hreaches : Format.double.Reaches n.natAbs 0 := ⟨hn, by decide⟩
  have hlt : (n.natAbs : ℚ) * 2 ^ (0 : ℤ) <
      2 ^ (Format.double.precision + Format.double.maxExp - 1) :=
    hreaches.lt.trans_le (zpow_le_zpow_right₀ (by norm_num) (by decide))
  rw [ofInt, position?_ofRatio (by decide) _ one_pos hvalue hreaches hlt, signedValue_eq]
  by_cases hneg : n < 0
  · simp [hneg, abs_of_neg]
  · simp [hneg, abs_of_nonneg (not_lt.1 hneg)]

/-! ## Floats as decimals -/

/-- The twos of a significand that its power of two shares divide it. -/
theorem twoPow_sharedTwos_dvd (f : Format) (m : ℕ) (e : ℤ) : twoPow (sharedTwos f m e) ∣ m := by
  unfold sharedTwos
  split
  · exact one_dvd m
  · set shared := (List.range (-e).toNat).takeWhile fun i : ℕ => m % twoPow (i + 1) == 0
    rcases Nat.eq_zero_or_pos shared.length with hzero | hpos
    · rw [hzero]
      exact one_dvd m
    · -- the last of the places that count is the one before their number
      have hlast : shared[shared.length - 1] = shared.length - 1 := by
        rw [(List.takeWhile_prefix _).getElem, List.getElem_range]
      have hmem : shared.length - 1 ∈ shared := hlast ▸ List.getElem_mem _
      have hmod := List.mem_takeWhile_imp hmem
      rw [beq_iff_eq, ← Nat.cast_succ, Nat.succ_eq_add_one, Nat.sub_add_cancel hpos] at hmod
      exact Nat.dvd_of_mod_eq_zero hmod

theorem sharedTwos_le (f : Format) (m : ℕ) (e : ℤ) : sharedTwos f m e ≤ (-e).toNat := by
  unfold sharedTwos
  split
  · exact Nat.zero_le _
  · exact (List.takeWhile_prefix _).length_le.trans_eq List.length_range

/-- What is left of a significand, times the fives of its places, is the number at its scale. -/
theorem value_digits (negative : Bool) (m : ℕ) (e : ℤ) :
    let twos := sharedTwos f m e
    let places := (-e).toNat - twos
    Decimal.value ⟨signed negative (m / twoPow twos * twoPow e * Nat.pow 5 places), places⟩ =
      signedValue negative m e := by
  intro twos places
  have hvalue : ((m / twoPow twos * twoPow e * Nat.pow 5 places : ℕ) : ℚ) * 10 ^ (-(places : ℤ)) =
      m * 2 ^ e := by
    obtain ⟨c, hc⟩ := twoPow_sharedTwos_dvd f m e
    have hle : twos ≤ (-e).toNat := sharedTwos_le f m e
    have htwos : (twoPow twos : ℚ) = 2 ^ (twos : ℤ) := twoPow_of_nonneg (by omega)
    have hten : (10 : ℚ) ^ (-(places : ℤ)) = 2 ^ (-(places : ℤ)) * (5 ^ places)⁻¹ := by
      rw [show (10 : ℚ) = 2 * 5 by norm_num, mul_zpow, zpow_neg 5, zpow_natCast]
    have hm : (m : ℚ) = 2 ^ (twos : ℤ) * c := by
      rw [← htwos]
      exact_mod_cast hc
    have hquotient : m / twoPow twos = c := by
      rw [hc]
      exact Nat.mul_div_cancel_left c (twoPow_pos _)
    have hpow : (twoPow e : ℚ) * 2 ^ (-(places : ℤ)) = 2 ^ (twos : ℤ) * 2 ^ e := by
      rcases le_total 0 e with he | he
      · rw [twoPow_of_nonneg he, show (twos : ℤ) = 0 by omega, show (places : ℤ) = 0 by omega]
        ring
      · rw [twoPow_of_nonpos he, Nat.cast_one, one_mul, ← zpow_add₀ two_ne_zero]
        congr 1
        omega
    have hfive : ((Nat.pow 5 places : ℕ) : ℚ) * (5 ^ places)⁻¹ = 1 := by
      rw [show ((Nat.pow 5 places : ℕ) : ℚ) = 5 ^ places from Nat.cast_pow 5 places]
      exact mul_inv_cancel₀ (by positivity)
    calc ((m / twoPow twos * twoPow e * Nat.pow 5 places : ℕ) : ℚ) * 10 ^ (-(places : ℤ))
        = c * (twoPow e * 2 ^ (-(places : ℤ))) * ((Nat.pow 5 places : ℕ) * (5 ^ places)⁻¹) := by
          rw [hquotient, hten, Nat.cast_mul, Nat.cast_mul]
          ring
      _ = m * 2 ^ e := by
          rw [hpow, hfive, hm]
          ring
  rw [Decimal.value, signed_cast, signedValue_eq, ← hvalue, ite_mul, neg_mul]

/-- **A float is exactly its decimal.** -/
theorem exists_toDecimal? {x : Binary f} {q : ℚ} (hx : x.position? = some (.ofRat q)) :
    ∃ d, x.toDecimal? = some d ∧ d.value = q := by
  cases x with
  | nan => cases hx
  | infinite s =>
    cases s with
    | false => exact absurd (Option.some.inj hx) (Line.ofRat_lt_top q).ne'
    | true => exact absurd (Option.some.inj hx) (Line.bot_lt_ofRat q).ne
  | finite s m e h =>
    obtain rfl := Line.ofRat_injective (Option.some.inj hx)
    rw [toDecimal?]
    split_ifs with hm
    · exact ⟨_, rfl, by simp [Decimal.value, hm, signedValue_eq]⟩
    · exact ⟨_, rfl, value_digits s m e⟩

end Binary

/-! ## Rounded integers -/

/-- The point `q` of a double is as near to `x` as that of any double. -/
structure Rounded (x q : ℚ) : Prop where
  double : ∃ z : Double, z.position? = some (.ofRat q)
  le : ∀ (z : Double) (r : ℚ), z.position? = some (.ofRat r) → |x - q| ≤ |x - r|

namespace Rounded

variable {x y q r : ℚ} {z : Double}

/-- Rounding does not carry a number across a double. -/
theorem lt_of_lt (h : Rounded x q) (hz : z.position? = some (.ofRat r)) (hlt : q < r) : x < r := by
  by_contra hle
  have hle := not_lt.1 hle
  have hnearer := h.le z r hz
  rw [abs_of_nonneg (by linarith), abs_of_nonneg (by linarith)] at hnearer
  linarith

theorem lt_of_gt (h : Rounded x q) (hz : z.position? = some (.ofRat r)) (hlt : r < q) : r < x := by
  by_contra hle
  have hle := not_lt.1 hle
  have hnearer := h.le z r hz
  rw [abs_of_nonpos (by linarith), abs_of_nonpos (by linarith)] at hnearer
  linarith

/-- Against a double, a number that was rounded keeps its place or moves onto the double. -/
theorem cmp_eq_or (h : Rounded x q) (hz : z.position? = some (.ofRat r)) :
    cmp q r = .eq ∨ cmp q r = cmp x r := by
  rcases lt_trichotomy q r with hlt | heq | hgt
  · exact .inr (by rw [hlt.cmp_eq_lt, (h.lt_of_lt hz hlt).cmp_eq_lt])
  · exact .inl heq.cmp_eq_eq
  · exact .inr (by rw [hgt.cmp_eq_gt, (h.lt_of_gt hz hgt).cmp_eq_gt])

/-- A double is rounded to itself. -/
theorem eq_of_double (h : Rounded x q) (hz : z.position? = some (.ofRat x)) : q = x := by
  have hle := h.le z x hz
  rw [sub_self, abs_zero] at hle
  linarith [abs_nonpos_iff.1 hle]

/-- Rounding keeps the order of numbers or makes them equal. -/
theorem mono (h : Rounded x q) (h' : Rounded y r) (hlt : x < y) : q ≤ r := by
  by_contra hgt
  have hgt := not_le.1 hgt
  obtain ⟨z, hz⟩ := h.double
  obtain ⟨w, hw⟩ := h'.double
  have hy := h'.lt_of_lt hz hgt
  have hx := h.lt_of_gt hw hgt
  -- then both lie between the two doubles, the lower one nearer to the upper double
  have hnearer := h.le w r hw
  have hnearer' := h'.le z q hz
  rw [abs_of_nonpos (by linarith), abs_of_nonneg (by linarith)] at hnearer
  rw [abs_of_nonneg (by linarith), abs_of_nonpos (by linarith)] at hnearer'
  linarith

theorem cmp_eq_of_ne (h : Rounded x q) (h' : Rounded y r) (hne : x ≠ y) (hne' : q ≠ r) :
    cmp q r = cmp x y := by
  rcases hne.lt_or_gt with hlt | hgt
  · rw [hlt.cmp_eq_lt, (lt_of_le_of_ne (h.mono h' hlt) hne').cmp_eq_lt]
  · rw [hgt.cmp_eq_gt, (lt_of_le_of_ne (h'.mono h hgt) hne'.symm).cmp_eq_gt]

end Rounded

namespace Binary

/-- A point that is nearer to `x` than zero is nearer than all points beyond zero. -/
theorem abs_sub_le_of_signs {x q r : ℚ} (hle : |x - q| ≤ |x - r|) (hzero : |x - q| ≤ x)
    (hr : 0 ≤ r) (s t : Bool) :
    |(if s then -x else x) - (if s then -q else q)| ≤
      |(if s then -x else x) - (if t then -r else r)| := by
  have hbeyond : |x - q| ≤ |x + r| :=
    hzero.trans ((le_add_of_nonneg_right hr).trans (le_abs_self _))
  have hneg (y z : ℚ) : |-y - z| = |y + z| := by rw [← neg_add', abs_neg]
  cases s with
  | false =>
    cases t with
    | false => exact hle
    | true => exact hbeyond.trans_eq (congrArg abs (sub_neg_eq_add x r).symm)
  | true =>
    rw [if_pos rfl, if_pos rfl, hneg, ← sub_eq_add_neg]
    cases t with
    | false => exact hbeyond.trans_eq (hneg x r).symm
    | true => exact hle.trans_eq (by rw [if_pos rfl, hneg, sub_eq_add_neg])

/-- **An integer is rounded to a double next to it.** -/
theorem exists_rounded_ofInt {n : ℤ} (hn : n.natAbs ≤ twoPow 63) :
    ∃ q, (ofInt n : Double).position? = some (.ofRat q) ∧ Rounded n q := by
  have hlt : (n.natAbs : ℚ) / (1 : ℕ) <
      2 ^ (Format.double.precision + Format.double.maxExp - 1) := by
    rw [Nat.cast_one, div_one]
    calc (n.natAbs : ℚ) ≤ twoPow 63 := by exact_mod_cast hn
      _ = 2 ^ (63 : ℤ) := twoPow_of_nonneg (by norm_num)
      _ < 2 ^ (Format.double.precision + Format.double.maxExp - 1) :=
        zpow_lt_zpow_right₀ (by norm_num) (by decide)
  obtain ⟨m, e, h, heq, hnearest⟩ :=
    isNearest_ofRatio (f := .double) (by decide) (n < 0) n.natAbs one_pos hlt
  rw [Nat.cast_one, div_one] at hnearest
  have hq : (ofInt n : Double).position? = some (.ofRat (signedValue (n < 0) m e)) := by
    rw [ofInt, heq]
    rfl
  refine ⟨_, hq, ⟨_, hq⟩, fun z r hz => ?_⟩
  cases z with
  | nan => cases hz
  | infinite s =>
    cases s with
    | false => exact absurd (Option.some.inj hz) (Line.ofRat_lt_top r).ne'
    | true => exact absurd (Option.some.inj hz) (Line.bot_lt_ofRat r).ne
  | finite s k i h' =>
    obtain rfl := Line.ofRat_injective (Option.some.inj hz)
    have hle := hnearest.le k i (Format.holds_iff.1 h').1.1
    -- a double of the other sign is no nearer than zero
    have hzero := hnearest.le 0 Format.double.minExp ⟨twoPow_pos _, le_rfl⟩
    rw [Nat.cast_zero, zero_mul, sub_zero, Nat.abs_cast] at hzero
    have hn : (n : ℚ) = if decide (n < 0) = true then -(n.natAbs : ℚ) else n.natAbs := by
      rw [← signed_cast]
      congr 1
      unfold signed
      split_ifs with hneg
      · rw [decide_eq_true_iff] at hneg
        omega
      · rw [decide_eq_true_iff] at hneg
        omega
    rw [hn, signedValue_eq, signedValue_eq]
    exact abs_sub_le_of_signs hle hzero
      (mul_nonneg (Nat.cast_nonneg k) (zpow_nonneg two_pos.le i)) _ _

end Binary

/-- Rounding does not move an integer onto a small one or past it. -/
theorem Rounded.cmp_ofInt {n k : ℤ} {q : ℚ} (h : Rounded n q)
    (hk : k.natAbs + 1 < twoPow Format.double.precision) : cmp q k = cmp n k := by
  rw [← cmp_intCast n k]
  rcases lt_trichotomy n k with hlt | rfl | hgt
  · have hpred : (n : ℚ) ≤ ((k - 1 : ℤ) : ℚ) := Int.cast_le.2 (by omega)
    have hq : q ≤ ((k - 1 : ℤ) : ℚ) := by
      by_contra hgt
      exact hpred.not_gt (h.lt_of_gt (Binary.position?_ofInt (by omega)) (not_le.1 hgt))
    rw [Int.cast_sub, Int.cast_one] at hq
    rw [(Int.cast_lt.2 hlt).cmp_eq_lt, (show q < k by linarith).cmp_eq_lt]
  · rw [h.eq_of_double (Binary.position?_ofInt (by omega))]
  · have hsucc : ((k + 1 : ℤ) : ℚ) ≤ n := Int.cast_le.2 (by omega)
    have hq : ((k + 1 : ℤ) : ℚ) ≤ q := by
      by_contra hlt
      exact hsucc.not_gt (h.lt_of_lt (Binary.position?_ofInt (by omega)) (not_le.1 hlt))
    rw [Int.cast_add, Int.cast_one] at hq
    rw [(Int.cast_lt.2 hgt).cmp_eq_gt, (show (k : ℚ) < q by linarith).cmp_eq_gt]

end RecordFilter.Number

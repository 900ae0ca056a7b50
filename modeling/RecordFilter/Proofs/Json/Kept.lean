import RecordFilter.Proofs.Json.Nan
import RecordFilter.Proofs.Json.Numerals

/-!
# What a document keeps of a number

A numeral without point and exponent is kept as an integer where it fits a word
(`ofNumeral_eq_integer`), except for minus zero. Every other one is kept as a double, which is
finite (`Number.isFinite_of_ofNumeral`) and is sure to be the nearest one if the numeral is short
(`isNearest_of_short`): its digits and its power of ten are then doubles, and their quotient is
rounded once.
-/

namespace RecordFilter.Number

theorem fitsWord_iff {bits : ℕ} {i : ℤ} :
    fitsWord bits i = true ↔ -(twoPow (bits - 1) : ℤ) ≤ i ∧ i < twoPow (bits - 1) := by
  rw [fitsWord, Bool.and_eq_true, decide_eq_true_eq, decide_eq_true_eq]

theorem fitsWord_mono {a b : ℕ} (hab : a ≤ b) {i : ℤ} (h : fitsWord a i = true) :
    fitsWord b i = true := by
  have hle : twoPow (a - 1) ≤ twoPow (b - 1) := Nat.pow_le_pow_right (by decide) (by omega)
  rw [fitsWord_iff] at h ⊢
  omega

end RecordFilter.Number

namespace RecordFilter.Json

open RecordFilter.Filter RecordFilter.Number Text

/-! ## The digits within a word -/

/-- A number continued by digits. -/
def continued (n : ℕ) (ds : List Char) : ℕ := ds.foldl (fun n c => 10 * n + digitValue c) n

theorem continued_cons (n : ℕ) (c : Char) (ds : List Char) :
    continued n (c :: ds) = continued (10 * n + digitValue c) ds :=
  List.foldl_cons

theorem le_continued {n : ℕ} {ds : List Char} : n ≤ continued n ds := by
  induction ds generalizing n with
  | nil => exact le_rfl
  | cons c ds ih => exact le_trans (by omega) (ih (n := 10 * n + digitValue c))

theorem ofDigits_append_eq_continued (s t : List Char) :
    ofDigits (s ++ t) = continued (ofDigits s) t :=
  List.foldl_append

/-- Digits that make a word are all taken. -/
theorem takeWord_of_lt {n : ℕ} {ds : List Char} (h : continued n ds < wordBound) :
    takeWord n ds = (continued n ds, []) := by
  induction ds generalizing n with
  | nil => rfl
  | cons c ds ih =>
    rw [continued_cons] at h ⊢
    rw [takeWord, if_pos (lt_of_le_of_lt le_continued h), ih h]

/-- If all digits are taken, then they are the word. -/
theorem takeWord_of_left {n w : ℕ} {ds : List Char} (h : takeWord n ds = (w, [])) :
    w = continued n ds := by
  induction ds generalizing n with
  | nil => exact (Prod.mk.inj h).1.symm
  | cons c ds ih =>
    rw [takeWord] at h
    split at h
    · exact ih h
    · cases (Prod.mk.inj h).2

theorem takeWord_lt {m : ℕ} {ds : List Char} (hm : m < wordBound) :
    (takeWord m ds).1 < wordBound := by
  induction ds generalizing m with
  | nil => exact hm
  | cons c ds ih =>
    rw [takeWord]
    split
    · next h => exact ih h
    · exact hm

/-! ## Integers -/

variable {n : Numeral} {j : Number} {i : ℤ}

theorem ofParts_ne_integer {negative : Bool} {significand : ℕ} {e : ℤ} :
    ofParts negative significand e ≠ some (.integer i) := by
  intro h
  obtain ⟨x, -, hx⟩ := Option.map_eq_some_iff.1 h
  cases hx

theorem ofWord_eq_integer {negative : Bool} {m : ℕ} (h : ofWord negative m = some (.integer i)) :
    i = signed negative m ∧ (negative = true → 0 < m) := by
  unfold ofWord at h
  cases negative with
  | false =>
    cases h
    exact ⟨rfl, nofun⟩
  | true =>
    rw [if_neg (by decide)] at h
    split at h
    · next hm =>
      cases h
      exact ⟨rfl, fun _ => hm.1⟩
    · cases h

/-- What is kept as an integer is written as that integer. -/
theorem integer_of_ofNumeral (hn : n.Plain) (h : Number.ofNumeral n = some (.integer i)) :
    n.places = [] ∧ i = signed n.negative (ofDigits n.whole) ∧
      (n.negative = true → 0 < ofDigits n.whole) ∧ ofDigits n.whole < wordBound := by
  unfold Number.ofNumeral at h
  rw [hn.no_exponent] at h
  dsimp only at h
  split at h
  · next hempty =>
    rw [Bool.and_eq_true, List.isEmpty_iff, List.isEmpty_iff] at hempty
    have hword : (takeWord 0 n.whole).1 = ofDigits n.whole :=
      takeWord_of_left (Prod.ext rfl hempty.1)
    have hlt : ofDigits n.whole < wordBound := hword ▸ takeWord_lt (by decide)
    rw [hword] at h
    obtain ⟨hi, hzero⟩ := ofWord_eq_integer h
    exact ⟨hempty.2, hi, hzero, hlt⟩
  · exact absurd h ofParts_ne_integer

/-- Digits that make a word are kept as that word. -/
theorem ofNumeral_eq_ofWord (hn : n.Plain) (hplaces : n.places = [])
    (hlt : ofDigits n.whole < wordBound) :
    Number.ofNumeral n = ofWord n.negative (ofDigits n.whole) := by
  have htake : takeWord 0 n.whole = (ofDigits n.whole, []) := takeWord_of_lt hlt
  unfold Number.ofNumeral
  rw [hn.no_exponent, htake, hplaces]
  rfl

/-- An integer within a word is kept, unless it is minus zero. -/
theorem ofNumeral_eq_integer (hn : n.Plain) (hplaces : n.places = [])
    (hfits : fitsWord 64 (signed n.negative (ofDigits n.whole)) = true)
    (hzero : n.negative = true → 0 < ofDigits n.whole) :
    Number.ofNumeral n = some (.integer (signed n.negative (ofDigits n.whole))) := by
  have hlt : ofDigits n.whole < wordBound := by
    have hbound : (twoPow ((64 : ℕ) - 1) : ℤ) < wordBound := by decide
    rw [fitsWord_iff] at hfits
    unfold signed at hfits
    split at hfits <;> omega
  rw [ofNumeral_eq_ofWord hn hplaces hlt]
  cases hnegative : n.negative with
  | false => rfl
  | true =>
    rw [hnegative] at hfits
    unfold ofWord
    rw [if_neg (by decide), if_pos ⟨hzero hnegative, hfits⟩]
    rfl

/-- A number of a document is an integer if it is kept as one within a signed word. -/
theorem Number.toInt?_eq_some :
    j.toInt? = some i ↔ j = .integer i ∧ fitsWord 64 i = true := by
  cases j with
  | integer m =>
    rw [Number.toInt?, Number.integer.injEq]
    constructor
    · intro h
      split at h
      · next hfits =>
        obtain rfl := Option.some.inj h
        exact ⟨rfl, hfits⟩
      · cases h
    · rintro ⟨rfl, hfits⟩
      exact if_pos hfits
  | float x => exact ⟨nofun, fun h => by cases h.1⟩

/-! ## Doubles -/

theorem double_precision : 1 < Format.double.precision := by decide

/-- The double is finite and at most `2 ^ 64`. -/
def Small (x : Double) : Prop :=
  ∃ negative m e h, x = .finite negative m e h ∧ (m : ℚ) * 2 ^ e ≤ 2 ^ (64 : ℤ)

theorem Small.isFinite {x : Double} (h : Small x) : x.isFinite = true := by
  obtain ⟨negative, m, e, hholds, rfl, -⟩ := h
  rfl

theorem reaches_wordBound : Format.double.Reaches 1 64 := ⟨by decide, by decide⟩

/-- Rounding keeps within the bound of a word. -/
theorem small_of_isNearest {x : Double} {negative : Bool} {v : ℚ} (h : x.IsNearest negative v)
    (hv : v ≤ 2 ^ (64 : ℤ)) : Small x := by
  obtain ⟨m, e, hholds, rfl, hnearest⟩ := h
  refine ⟨negative, m, e, hholds, rfl, not_lt.1 fun hlt => ?_⟩
  have hacross := hnearest.lt_of_gt reaches_wordBound (by rw [Nat.cast_one, one_mul]; exact hlt)
  rw [Nat.cast_one, one_mul] at hacross
  exact absurd hv (not_le.2 hacross)

/-- A quotient within the bound of a word is rounded to a finite double. -/
theorem isNearest_ofRatio {v : ℚ} {a d : ℕ} (negative : Bool) (hd : 0 < d) (hv : (a : ℚ) / d = v)
    (hle : v ≤ 2 ^ (64 : ℤ)) : (Binary.ofRatio negative a d : Double).IsNearest negative v := by
  have h := Binary.isNearest_ofRatio double_precision negative a hd
    (hv ▸ hle.trans_lt (zpow_lt_zpow_right₀ (by norm_num) (by decide)))
  rwa [hv] at h

theorem isNearest_ofInt (h : (i.natAbs : ℚ) ≤ 2 ^ (64 : ℤ)) :
    (Binary.ofInt i : Double).IsNearest (i < 0) i.natAbs :=
  isNearest_ofRatio _ one_pos (by rw [Nat.cast_one, div_one]) h

/-- A power of ten within the range of doubles is a double of at least one. -/
theorem powerOfTen_spec {k : ℕ} (hk : k ≤ maxPower) :
    ∃ m e h, powerOfTen k = .finite false m e h ∧ Format.double.Nearest (10 ^ (k : ℤ)) m e ∧
      (1 : ℚ) ≤ m * 2 ^ e := by
  obtain ⟨m, e, hnearest, heq⟩ := Binary.ofScientific_nearest Format.double_proper false 1 k
  rw [Nat.cast_one, one_mul] at hnearest
  have hdivisor := powerOfTen_isDivisor hk
  rw [powerOfTen, heq] at hdivisor
  have hholds : Format.double.Holds m e := by
    by_contra hnot
    rw [Binary.ofParts, dif_neg hnot] at hdivisor
    cases hdivisor
  refine ⟨m, e, hholds, by rw [powerOfTen, heq, Binary.ofParts_of_holds hholds], hnearest,
    not_lt.1 fun hlt => ?_⟩
  have hone : Format.double.Reaches 1 0 := ⟨by decide, by decide⟩
  have hacross := hnearest.lt_of_lt hone (by rw [Nat.cast_one, one_mul, zpow_zero]; exact hlt)
  rw [Nat.cast_one, one_mul, zpow_zero] at hacross
  exact absurd (one_le_zpow₀ (by norm_num) (by omega)) (not_le.2 hacross)

/-- The quotient by a power of ten is rounded once. -/
theorem isNearest_div {negative : Bool} {m a : ℕ} {e k : ℤ} (hm : Format.double.Holds m e)
    (ha : Format.double.Holds a k) (hone : (1 : ℚ) ≤ a * 2 ^ k)
    (hle : (m : ℚ) * 2 ^ e ≤ 2 ^ (64 : ℤ)) :
    ((.finite negative m e hm : Double).div (.finite false a k ha)).IsNearest negative
      (m * 2 ^ e / (a * 2 ^ k)) := by
  have hpos : 0 < a := Nat.pos_of_ne_zero fun hzero => by
    rw [hzero, Nat.cast_zero, zero_mul] at hone
    exact absurd hone (by norm_num)
  have hratio : ((m * twoPow (e - k) : ℕ) : ℚ) / (a * twoPow (k - e) : ℕ) =
      m * 2 ^ e / (a * 2 ^ k) := by
    have hdiv := twoPow_div (e - k)
    rw [neg_sub] at hdiv
    push_cast
    rw [mul_div_mul_comm, hdiv, zpow_sub₀ two_ne_zero, mul_div_mul_comm]
  have hquotient : (m : ℚ) * 2 ^ e / (a * 2 ^ k) ≤ 2 ^ (64 : ℤ) :=
    (div_le_self (by positivity) hone).trans hle
  have hsign : (negative != false) = negative := by cases negative <;> rfl
  rw [Binary.div, if_neg hpos.ne', hsign]
  exact isNearest_ofRatio negative (Nat.mul_pos hpos (twoPow_pos _)) hratio hquotient

theorem Small.div {x : Double} {k : ℕ} (h : Small x) (hk : k ≤ maxPower) :
    Small (x.div (powerOfTen k)) := by
  obtain ⟨negative, m, e, hm, rfl, hle⟩ := h
  obtain ⟨a, i, ha, heq, -, hone⟩ := powerOfTen_spec hk
  rw [heq]
  exact small_of_isNearest (isNearest_div hm ha hone hle)
    ((div_le_self (by positivity) hone).trans hle)

theorem scale_isFinite {x y : Double} {e : ℤ} (hx : Small x) (h : scale x e = some y) :
    y.isFinite = true := by
  fun_induction scale x e with
  | case1 x e he hzero =>
    cases h
    exact hx.isFinite
  | case2 x e he hzero ih => exact ih (hx.div le_rfl) h
  | case3 x e hmin hneg =>
    cases h
    exact (hx.div (by omega)).isFinite
  | case4 x e hmin hneg hmax z hfinite =>
    obtain rfl := Option.some.inj h
    exact hfinite
  | case5 => cases h
  | case6 =>
    cases h
    exact hx.isFinite
  | case7 => cases h

theorem isNearest_ofWord {m : ℕ} (hm : m < wordBound) :
    (Binary.ofInt m : Double).IsNearest false m := by
  have hle : (m : ℚ) ≤ 2 ^ (64 : ℤ) := by
    rw [← twoPow_of_nonneg (by decide)]
    exact_mod_cast hm.le
  have h := isNearest_ofInt (i := m) (by rwa [Int.natAbs_natCast])
  rwa [Int.natAbs_natCast, decide_eq_false (by omega)] at h

theorem small_ofWord {m : ℕ} (hm : m < wordBound) : Small (Binary.ofInt m) := by
  refine small_of_isNearest (isNearest_ofWord hm) ?_
  rw [← twoPow_of_nonneg (by decide)]
  exact_mod_cast hm.le

theorem isFinite_neg {f : Format} {x : Binary f} (h : x.isFinite = true) :
    x.neg.isFinite = true := by
  cases x with
  | finite => rfl
  | infinite => cases h
  | nan => cases h

/-- A word is kept as a double only with a sign, and then as the one nearest to it. -/
theorem ofWord_eq_float {negative : Bool} {m : ℕ} {x : Double}
    (h : ofWord negative m = some (.float x)) :
    negative = true ∧ x = (Binary.ofInt m).neg := by
  unfold ofWord at h
  split_ifs at h with hnegative
  · cases h
  · cases h
  · exact ⟨by simpa using hnegative, (Number.float.inj (Option.some.inj h)).symm⟩

/-- A finite number: an integer within a word, with sign or without, or a finite double. -/
def Number.IsFinite : Number → Prop
  | integer i => -(twoPow 63 : ℤ) ≤ i ∧ i < wordBound
  | float x => x.isFinite = true

theorem Number.isFinite_of_ofParts {negative : Bool} {significand : ℕ} {e : ℤ}
    (hword : significand < wordBound) (h : ofParts negative significand e = some j) :
    j.IsFinite := by
  obtain ⟨x, hx, rfl⟩ := Option.map_eq_some_iff.1 h
  have hfinite := scale_isFinite (small_ofWord hword) hx
  cases negative with
  | false => exact hfinite
  | true => exact isFinite_neg hfinite

theorem Number.isFinite_of_withExponent {negative below : Bool} {significand : ℕ} {e : ℤ}
    {ds : List Char} (hword : significand < wordBound)
    (h : withExponent negative significand e below ds = some j) : j.IsFinite := by
  unfold withExponent at h
  split at h
  · exact isFinite_of_ofParts hword h
  split at h
  · cases h
    rfl
  · cases h

theorem Number.isFinite_of_ofWord {negative : Bool} {m : ℕ} (hword : m < wordBound)
    (h : ofWord negative m = some j) : j.IsFinite := by
  unfold ofWord at h
  split at h
  · cases h
    exact ⟨by omega, by exact_mod_cast hword⟩
  split at h
  · next hm =>
    cases h
    obtain ⟨hlow, hhigh⟩ := fitsWord_iff.1 hm.2
    have hbound : (twoPow ((64 : ℕ) - 1) : ℤ) < wordBound := by decide
    exact ⟨hlow, hhigh.trans hbound⟩
  · cases h
    exact isFinite_neg (small_ofWord hword).isFinite

/-- **What a document keeps is finite.** -/
theorem Number.isFinite_of_ofNumeral (h : ofNumeral n = some j) : j.IsFinite := by
  have hword : (takeWord 0 n.whole).1 < wordBound := takeWord_lt (by decide)
  unfold ofNumeral at h
  dsimp only at h
  split at h
  · exact isFinite_of_withExponent (takeWord_lt hword) h
  split at h
  · exact isFinite_of_ofWord hword h
  · exact isFinite_of_ofParts (takeWord_lt hword) h

theorem Number.IsFinite.toDouble (h : j.IsFinite) : j.toDouble.isFinite = true := by
  cases j with
  | integer i =>
    have hbound : (i.natAbs : ℚ) ≤ 2 ^ (64 : ℤ) := by
      have hwords : (twoPow 63 : ℤ) < wordBound := by decide
      have hle : i.natAbs ≤ twoPow 64 := by
        obtain ⟨hlow, hhigh⟩ := h
        unfold wordBound at hhigh hwords
        omega
      rw [← twoPow_of_nonneg (by decide)]
      exact_mod_cast hle
    exact (small_of_isNearest (isNearest_ofInt hbound) hbound).isFinite
  | float x => exact h

/-! ## Nearest doubles -/

theorem natAbs_signed (negative : Bool) (m : ℕ) : (signed negative m).natAbs = m := by
  cases negative with
  | false => rfl
  | true => exact (Int.natAbs_neg _).trans (Int.natAbs_natCast m)

theorem signed_lt_zero {negative : Bool} {m : ℕ} (hm : negative = true → 0 < m) :
    decide (signed negative m < 0) = negative := by
  cases negative with
  | false => exact decide_eq_false (by simp [signed])
  | true =>
    have hpos := hm rfl
    exact decide_eq_true (by simp [signed, hpos])

theorem magnitude_of_no_places (hn : n.Plain) (hplaces : n.places = []) :
    n.magnitude = ofDigits n.whole := by
  rw [Numeral.magnitude, Numeral.significand, hn.scale_eq, hplaces, List.append_nil]
  simp

/-- **An integer that is kept is the nearest double.** -/
theorem isNearest_of_integer (hn : n.Plain) (h : Number.ofNumeral n = some (.integer i)) :
    (Number.integer i).toDouble.IsNearest n.negative n.magnitude := by
  obtain ⟨hplaces, rfl, hzero, hword⟩ := integer_of_ofNumeral hn h
  have hnearest := isNearest_ofInt (i := signed n.negative (ofDigits n.whole)) (by
    rw [natAbs_signed, ← twoPow_of_nonneg (by decide)]
    exact_mod_cast hword.le)
  rw [natAbs_signed, signed_lt_zero hzero] at hnearest
  rw [magnitude_of_no_places hn hplaces]
  exact hnearest

/-- The largest power of ten that is a double with nothing rounded. -/
def exactPower : ℕ := 22

theorem powerOfTen_exact {k : ℕ} (hk : k ≤ exactPower) :
    ∃ m e h, powerOfTen k = .finite false m e h ∧ (m : ℚ) * 2 ^ e = 10 ^ (k : ℤ) := by
  obtain ⟨m, e, h, heq, hnearest, -⟩ := powerOfTen_spec (hk.trans (by decide))
  have hten : (10 : ℚ) ^ (k : ℤ) = (5 ^ k : ℕ) * 2 ^ (k : ℤ) := by
    rw [zpow_natCast, zpow_natCast, Nat.cast_pow, ← mul_pow]
    norm_num
  have hreaches : Format.double.Reaches (5 ^ k) k := by
    refine ⟨lt_of_le_of_lt (Nat.pow_le_pow_right (by decide) hk) (by decide), ?_⟩
    exact le_trans (by decide) (Int.natCast_nonneg k)
  rw [hten] at hnearest
  exact ⟨m, e, h, heq, by rw [hnearest.eq_of_reaches hreaches, hten]⟩

theorem ofWord_exact {m : ℕ} (hm : m < twoPow Format.double.precision) :
    ∃ a e h, (Binary.ofInt m : Double) = .finite false a e h ∧ (a : ℚ) * 2 ^ e = m := by
  obtain ⟨a, e, h, heq, hnearest⟩ := isNearest_ofWord (hm.trans (by decide))
  have hreaches : Format.double.Reaches m 0 := ⟨hm, by decide⟩
  have hvalue : (m : ℚ) = m * 2 ^ (0 : ℤ) := by rw [zpow_zero, mul_one]
  rw [hvalue] at hnearest
  exact ⟨a, e, h, heq, by rw [hnearest.eq_of_reaches hreaches, ← hvalue]⟩

/-- One division by an exact power of ten. -/
theorem isNearest_of_scale {significand places : ℕ} {y : Double}
    (hdigits : significand < twoPow Format.double.precision) (hpos : 0 < places)
    (hplaces : places ≤ exactPower)
    (h : scale (Binary.ofInt significand) (-(places : ℤ)) = some y) :
    y.IsNearest false (significand * 10 ^ (-(places : ℤ))) := by
  obtain ⟨m, e, hm, hsignificand, hvalue⟩ := ofWord_exact hdigits
  obtain ⟨a, k, ha, hpower, hten⟩ := powerOfTen_exact hplaces
  have hbound : exactPower ≤ maxPower := by decide
  rw [scale, if_neg (by omega), if_pos (by omega), Int.natAbs_neg, Int.natAbs_natCast,
    hsignificand, hpower] at h
  obtain rfl := Option.some.inj h
  have hone : (1 : ℚ) ≤ a * 2 ^ k := hten ▸ one_le_zpow₀ (by norm_num) (by omega)
  have hle : (m : ℚ) * 2 ^ e ≤ 2 ^ (64 : ℤ) := by
    rw [hvalue, ← twoPow_of_nonneg (by decide)]
    exact_mod_cast hdigits.le.trans (by decide)
  have hnearest : ((.finite false m e hm : Double).div (.finite false a k ha)).IsNearest false
      (m * 2 ^ e / (a * 2 ^ k)) := isNearest_div hm ha hone hle
  rwa [hvalue, hten, div_eq_mul_inv, ← zpow_neg] at hnearest

/-- **Few digits are kept as the nearest double.** -/
theorem isNearest_of_short (hn : n.Plain) (h : Number.ofNumeral n = some j)
    (hdigits : n.significand < twoPow Format.double.precision)
    (hplaces : n.places.length ≤ exactPower) : j.toDouble.IsNearest n.negative n.magnitude := by
  cases j with
  | integer i => exact isNearest_of_integer hn h
  | float x =>
    have hbound : n.significand < wordBound := hdigits.trans (by decide)
    have hcontinued : n.significand = continued (ofDigits n.whole) n.places :=
      ofDigits_append_eq_continued _ _
    have hwhole : takeWord 0 n.whole = (ofDigits n.whole, []) :=
      takeWord_of_lt (lt_of_le_of_lt (le_continued.trans hcontinued.ge) hbound)
    have htake : takeWord (ofDigits n.whole) n.places = (n.significand, []) := by
      rw [hcontinued] at hbound ⊢
      exact takeWord_of_lt hbound
    unfold Number.ofNumeral at h
    rw [hn.no_exponent, hwhole] at h
    simp only [htake, List.isEmpty_nil, Bool.true_and, List.isEmpty_iff, List.length_nil,
      Nat.sub_zero, Nat.cast_zero, zero_sub] at h
    split at h
    · next hempty =>
      have hvalue : n.significand = ofDigits n.whole := by rw [hcontinued, hempty]; rfl
      rw [hvalue] at hdigits
      obtain ⟨hnegative, rfl⟩ := ofWord_eq_float h
      rw [magnitude_of_no_places hn hempty, hnegative]
      exact (isNearest_ofWord (hdigits.trans (by decide))).neg
    · next hempty =>
      obtain ⟨y, hy, hx⟩ := Option.map_eq_some_iff.1 h
      have hnearest := isNearest_of_scale hdigits (List.length_pos_iff.2 hempty) hplaces hy
      rw [Numeral.magnitude, hn.scale_eq]
      obtain rfl := Number.float.inj hx
      cases n.negative with
      | false => exact hnearest
      | true => exact hnearest.neg

end RecordFilter.Json

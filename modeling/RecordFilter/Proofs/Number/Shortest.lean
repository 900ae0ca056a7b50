import RecordFilter.Number.Binary.Shortest
import RecordFilter.Proofs.Number.Rounding

/-!
# The shortest digits of a float

The digits written for a float are found on the coarsest grid of decimals with a neighbour of the
float that reads back as it (`Binary.shortest_on_grid`). There is always such a grid, so the float
is the one nearest to its digits (`Binary.nearest_shortest`). If the float was itself read from few
digits, these are the ones that are written (`Binary.value_shortest`).
-/

namespace RecordFilter.Number

open Text

variable {f : Format} {m d : ℕ} {e k : ℤ} {x : ℚ}

/-! ## Trailing zeros -/

/-- The number of zeros at the end of a number. -/
def trailingZeros (d : ℕ) : ℕ := ((digits d).reverse.takeWhile (· == '0')).length

theorem digits_of_ge {d : ℕ} (h : 10 ≤ d) : digits d = digits (d / 10) ++ [(d % 10).digitChar] :=
  Nat.toDigits_of_base_le (by decide) h

theorem digitCount_of_ge {d : ℕ} (h : 10 ≤ d) : digitCount d = digitCount (d / 10) + 1 := by
  rw [digitCount, digits_of_ge h, List.length_append]
  rfl

theorem digitChar_ne_zero {c : ℕ} (h : c < 10) (hc : c ≠ 0) : (c.digitChar == '0') = false := by
  interval_cases c <;> first | exact absurd rfl hc | rfl

theorem trailingZeros_eq_zero (h : d % 10 ≠ 0) : trailingZeros d = 0 := by
  have hlast : ∃ ds, digits d = ds ++ [(d % 10).digitChar] := by
    rcases lt_or_ge d 10 with hd | hd
    · refine ⟨[], ?_⟩
      rw [digits, Nat.toDigits_of_lt_base hd, Nat.mod_eq_of_lt hd]
      rfl
    · exact ⟨_, digits_of_ge hd⟩
  obtain ⟨ds, hds⟩ := hlast
  rw [trailingZeros, hds, List.reverse_append, List.reverse_singleton, List.singleton_append,
    List.takeWhile_cons_of_neg (by rw [digitChar_ne_zero (Nat.mod_lt _ (by decide)) h]; nofun)]
  rfl

theorem trailingZeros_succ (hd : 0 < d) (h : d % 10 = 0) :
    trailingZeros d = trailingZeros (d / 10) + 1 := by
  rw [trailingZeros, digits_of_ge (by omega), h, List.reverse_append, List.reverse_singleton,
    List.singleton_append, List.takeWhile_cons_of_pos rfl]
  rfl

/-- A number without the zeros at its end. -/
theorem exists_significand (hd : 0 < d) :
    d / 10 ^ trailingZeros d * 10 ^ trailingZeros d = d ∧
      digitCount (d / 10 ^ trailingZeros d) + trailingZeros d = digitCount d := by
  induction d using Nat.strong_induction_on with
  | _ d ih =>
    by_cases h : d % 10 = 0
    · obtain ⟨hvalue, hcount⟩ := ih (d / 10) (by omega) (by omega)
      have hsplit := digitCount_of_ge (d := d) (by omega)
      rw [trailingZeros_succ hd h, pow_succ', ← Nat.div_div_eq_div_mul]
      exact ⟨by rw [mul_left_comm, hvalue]; omega, by omega⟩
    · rw [trailingZeros_eq_zero h, pow_zero, Nat.div_one]
      exact ⟨mul_one d, rfl⟩

namespace Significant

/-- The number that digits and the place of their point stand for. -/
def value (s : Significant) : ℚ := s.digits * 10 ^ (s.point - digitCount s.digits)

theorem ofMultiple_eq (d : ℕ) (k : ℤ) :
    ofMultiple d k = ⟨d / 10 ^ trailingZeros d, digitCount d + k⟩ := rfl

/-- Leaving out the zeros at the end keeps the number. -/
theorem value_ofMultiple (hd : 0 < d) : (ofMultiple d k).value = d * 10 ^ k := by
  obtain ⟨hvalue, hcount⟩ := exists_significand hd
  rw [ofMultiple_eq, value]
  dsimp only
  generalize trailingZeros d = z at *
  generalize d / 10 ^ z = c at *
  have hexp : (digitCount d : ℤ) + k - digitCount c = z + k := by omega
  rw [hexp, zpow_add₀ (by norm_num), zpow_natCast, ← hvalue]
  push_cast
  ring

theorem digits_ofMultiple_pos (hd : 0 < d) : 0 < (ofMultiple d k).digits := by
  obtain ⟨hvalue, -⟩ := exists_significand hd
  refine Nat.pos_of_ne_zero fun hzero => ?_
  rw [ofMultiple_eq] at hzero
  dsimp only at hzero
  rw [hzero, Nat.zero_mul] at hvalue
  exact hd.ne hvalue

end Significant

/-! ## The interval in integers -/

namespace Rounding

/-- The three bounds as numbers, for a float above zero. -/
theorem of_bounds (hm : 0 < m) (e : ℤ) :
    ((of f m e).low : ℚ) / (of f m e).den = m * 2 ^ e - f.gapBelow m e / 2 ∧
      ((of f m e).value : ℚ) / (of f m e).den = m * 2 ^ e ∧
      ((of f m e).high : ℚ) / (of f m e).den = m * 2 ^ e + 2 ^ e / 2 := by
  have hquarter : (2 : ℚ) ^ e = 4 * 2 ^ (e - 2) := by
    have h : (2 : ℚ) ^ (2 : ℤ) = 4 := by norm_num
    rw [← h, ← zpow_add₀ two_ne_zero]
    congr 1
    ring
  have hscale : ((twoPow (e - 2) : ℕ) : ℚ) / twoPow (2 - e) = 2 ^ (e - 2) := by
    rw [← twoPow_div, neg_sub]
  have hbelow : f.gapBelow m e / 2 =
      ((if m = twoPow (f.precision - 1) ∧ f.minExp < e then 1 else 2 : ℕ) : ℚ) * 2 ^ (e - 2) := by
    have hhalf : (2 : ℚ) ^ (e - 1) = 2 * 2 ^ (e - 2) := by
      rw [← zpow_one_add₀ two_ne_zero]
      congr 1
      ring
    rw [Format.gapBelow]
    split
    · rw [hhalf]
      push_cast
      ring
    · rw [hquarter]
      push_cast
      ring
  rw [of]
  dsimp only
  rw [hbelow, hquarter]
  have hle : (if m = twoPow (f.precision - 1) ∧ f.minExp < e then 1 else 2) ≤ 4 * m := by
    split <;> omega
  push_cast [Nat.cast_sub hle]
  rw [mul_div_assoc, mul_div_assoc, mul_div_assoc, hscale]
  exact ⟨by ring, by ring, by ring⟩

theorem den_pos (f : Format) (m : ℕ) (e : ℤ) : 0 < (of f m e).den := twoPow_pos _

theorem closed_iff : (of f m e).closed = true ↔ Even m := by
  rw [Nat.even_iff]
  exact beq_iff_eq

/-- A decimal lies in the interval exactly if it is rounded to the float. -/
theorem contains_iff (hm : 0 < m) : (of f m e).contains d k = true ↔ f.Rounds (d * 10 ^ k) m e := by
  obtain ⟨hlow, -, hhigh⟩ := of_bounds (f := f) hm e
  have hden : (0 : ℚ) < (of f m e).den := by exact_mod_cast den_pos f m e
  have hten : (0 : ℚ) < tenPow (-k) := by exact_mod_cast tenPow_pos _
  have hvalue : (d : ℚ) * 10 ^ k = d * tenPow k / tenPow (-k) := by
    rw [mul_div_assoc, tenPow_div]
  have hle (a b : ℕ) : a * tenPow (-k) ≤ b * tenPow k * (of f m e).den ↔
      (a : ℚ) / (of f m e).den ≤ b * tenPow k / tenPow (-k) := by
    rw [div_le_div_iff₀ hden hten]
    norm_cast
  have hge (a b : ℕ) : b * tenPow k * (of f m e).den ≤ a * tenPow (-k) ↔
      (b : ℚ) * tenPow k / tenPow (-k) ≤ a / (of f m e).den := by
    rw [div_le_div_iff₀ hten hden]
    norm_cast
  rw [contains]
  by_cases heven : Even m
  · rw [if_pos (closed_iff.2 heven), Bool.and_eq_true, decide_eq_true_eq, decide_eq_true_eq, hle,
      hge, hlow, hhigh, ← hvalue]
    exact ⟨fun h => ⟨h.1, h.2, fun hodd => absurd heven hodd⟩, fun h => ⟨h.low, h.high⟩⟩
  · rw [if_neg (fun h => heven (closed_iff.1 h)), Bool.and_eq_true, decide_eq_true_eq,
      decide_eq_true_eq, ← not_le, ← not_le, hle, hge, hlow, hhigh, ← hvalue, not_le, not_le]
    exact ⟨fun h => ⟨h.1.le, h.2.le, fun _ => h⟩, fun h => h.ends heven⟩

theorem pos_of_contains (hm : 0 < m) (h : (of f m e).contains d k = true) : 0 < d := by
  refine Nat.pos_of_ne_zero fun hzero => ?_
  obtain ⟨hlow, -⟩ := ((contains_iff hm).1 h).bounds
  rw [hzero, Nat.cast_zero, zero_mul] at hlow
  have hm' : (1 : ℚ) ≤ m := by exact_mod_cast hm
  have hle : (1 : ℚ) * 2 ^ e ≤ m * 2 ^ e := by gcongr
  linarith [show (0 : ℚ) < 2 ^ e by positivity]

/-- The multiple of `10 ^ k` at or below the float. -/
theorem floor_spec (hm : 0 < m) (e k : ℤ) :
    ((of f m e).floor k : ℚ) * 10 ^ k ≤ m * 2 ^ e ∧
      (m : ℚ) * 2 ^ e < ((of f m e).floor k + 1) * 10 ^ k := by
  obtain ⟨-, hvalue, -⟩ := of_bounds (f := f) hm e
  have hpos : (0 : ℚ) < 10 ^ k := by positivity
  have hratio : (((of f m e).value * tenPow (-k) : ℕ) : ℚ) / ((of f m e).den * tenPow k : ℕ) =
      m * 2 ^ e / 10 ^ k := by
    rw [← hvalue, ← tenPow_div]
    push_cast
    rw [div_div_div_eq]
  have hden : 0 < (of f m e).den * tenPow k := Nat.mul_pos (den_pos f m e) (tenPow_pos k)
  have hfloor : (of f m e).floor k = ⌊(m : ℚ) * 2 ^ e / 10 ^ k⌋₊ := by
    rw [← hratio, Nat.floor_div_eq_div, floor]
  have hnonneg : (0 : ℚ) ≤ m * 2 ^ e / 10 ^ k := by positivity
  rw [hfloor, ← le_div_iff₀ hpos, ← div_lt_iff₀ hpos]
  exact ⟨Nat.floor_le hnonneg, Nat.lt_floor_add_one _⟩

/-- The place of the point bounds the float. -/
theorem point_spec (hm : 0 < m) (he : f.minExp ≤ e) :
    (10 : ℚ) ^ ((of f m e).point f - 1) ≤ m * 2 ^ e ∧
      (m : ℚ) * 2 ^ e < 10 ^ (of f m e).point f := by
  obtain ⟨-, hvalue, -⟩ := of_bounds (f := f) hm e
  generalize hplaces : f.minExp.natAbs / 3 + 1 = places
  have hpoint : (of f m e).point f =
      digitCount ((of f m e).value * tenPow places / (of f m e).den) - places := by
    rw [point, hplaces]
  have hpow : (0 : ℚ) < 10 ^ (places : ℤ) := by positivity
  have hfloor : (of f m e).value * tenPow places / (of f m e).den =
      ⌊(m : ℚ) * 2 ^ e * 10 ^ (places : ℤ)⌋₊ := by
    rw [← hvalue, div_mul_eq_mul_div, ← tenPow_of_nonneg (by omega),
      ← Nat.cast_mul, Nat.floor_div_eq_div]
  -- so many places make an integer above zero of every number of the format
  have hone : 1 ≤ (m : ℚ) * 2 ^ e * 10 ^ (places : ℤ) := by
    have hm : (1 : ℚ) ≤ m := by exact_mod_cast hm
    have hten := two_pow_le_ten_pow (k := places) (by omega)
    calc (1 : ℚ) ≤ 2 ^ (e + 3 * places) := one_le_zpow₀ (by norm_num) (by omega)
      _ = 2 ^ e * 2 ^ (3 * (places : ℤ)) := zpow_add₀ two_ne_zero _ _
      _ ≤ 2 ^ e * 10 ^ (places : ℤ) := by gcongr
      _ ≤ m * (2 ^ e * 10 ^ (places : ℤ)) := le_mul_of_one_le_left (by positivity) hm
      _ = m * 2 ^ e * 10 ^ (places : ℤ) := (mul_assoc _ _ _).symm
  rw [hfloor] at hpoint
  have hpos := Nat.floor_pos.2 hone
  generalize hn : ⌊(m : ℚ) * 2 ^ e * 10 ^ (places : ℤ)⌋₊ = n at *
  have hle : (n : ℚ) ≤ m * 2 ^ e * 10 ^ (places : ℤ) := hn ▸ Nat.floor_le (by positivity)
  have hlt : (m : ℚ) * 2 ^ e * 10 ^ (places : ℤ) < n + 1 := hn ▸ Nat.lt_floor_add_one _
  obtain ⟨hlow, hhigh⟩ := digits_mul_pow hpos 0
  rw [add_zero, zpow_zero, mul_one] at hlow hhigh
  rw [hpoint]
  constructor
  · rw [sub_right_comm, zpow_sub₀ (by norm_num), div_le_iff₀ hpow]
    exact hlow.trans hle
  · rw [zpow_sub₀ (by norm_num), lt_div_iff₀ hpow]
    refine hlt.trans_le ?_
    rw [zpow_natCast] at hhigh ⊢
    have hhigh : n < 10 ^ digitCount n := by exact_mod_cast hhigh
    exact_mod_cast hhigh

theorem neighbour?_eq_some {tie : Tie} {r : Rounding} (h : r.neighbour? tie k = some d) :
    (d = r.floor k ∨ d = r.floor k + 1) ∧ r.contains d k = true := by
  unfold neighbour? at h
  dsimp only at h
  split at h
  · next hlow hhigh =>
    have h := Option.some.inj h
    split_ifs at h
    · exact h ▸ ⟨.inr rfl, hhigh⟩
    · exact h ▸ ⟨.inl rfl, hlow⟩
  · next hlow _ =>
    obtain rfl := Option.some.inj h
    exact ⟨.inl rfl, hlow⟩
  · next _ hhigh =>
    obtain rfl := Option.some.inj h
    exact ⟨.inr rfl, hhigh⟩
  · cases h

theorem neighbour?_ne_none (tie : Tie) {r : Rounding} (hd : d = r.floor k ∨ d = r.floor k + 1)
    (h : r.contains d k = true) : r.neighbour? tie k ≠ none := by
  unfold neighbour?
  dsimp only
  rcases hd with rfl | rfl
  · rw [h]
    cases r.contains (r.floor k + 1) k <;> nofun
  · rw [h]
    cases r.contains (r.floor k) k <;> nofun

end Rounding

namespace Binary

open Rounding

/-- The grids that are tried, from the coarsest on. -/
def grids (f : Format) (m : ℕ) (e : ℤ) : List ℤ :=
  (List.range f.decimalDigits).map fun i => (of f m e).point f - (i + 1 : ℕ)

theorem mem_grids : k ∈ grids f m e ↔
    (of f m e).point f - f.decimalDigits ≤ k ∧ k < (of f m e).point f := by
  simp only [grids, List.mem_map, List.mem_range]
  constructor
  · rintro ⟨i, hi, rfl⟩
    omega
  · rintro ⟨hlow, hhigh⟩
    exact ⟨((of f m e).point f - k - 1).toNat, by omega, by omega⟩

theorem pairwise_grids : (grids f m e).Pairwise (· > ·) := by
  refine List.pairwise_map.2 (List.pairwise_lt_range.imp ?_)
  intro i j hij
  omega

/-- The digits are a neighbour of the float on one of the grids. -/
theorem shortest_eq_ofMultiple (tie : Tie) (f : Format) (m : ℕ) (e : ℤ) :
    ∃ d k, shortest tie f m e = .ofMultiple d k ∧
      ((of f m e).point f - f.decimalDigits ≤ k ∧ k < (of f m e).point f + 1) ∧
      (d = (of f m e).floor k ∨ d = (of f m e).floor k + 1) := by
  unfold shortest
  dsimp only
  split
  · next s hs =>
    obtain ⟨k, hk, hsome⟩ := List.exists_of_findSome?_eq_some hs
    obtain ⟨d, hd, rfl⟩ := Option.map_eq_some_iff.1 hsome
    have hrange := mem_grids.1 hk
    exact ⟨d, k, rfl, ⟨hrange.1, by omega⟩, (neighbour?_eq_some hd).1⟩
  · exact ⟨_, _, rfl, ⟨le_rfl, by omega⟩, .inl rfl⟩

/-- If a neighbour on one of the grids reads back as the float, then the digits are a number on that
grid that does. -/
theorem shortest_on_grid (tie : Tie) {a : ℕ} {i : ℤ} (hi : i ∈ grids f m e)
    (ha : a = (of f m e).floor i ∨ a = (of f m e).floor i + 1)
    (hcontains : (of f m e).contains a i = true) :
    ∃ d k, shortest tie f m e = .ofMultiple d k ∧ i ≤ k ∧ (of f m e).contains d k = true := by
  have hne := neighbour?_ne_none tie ha hcontains
  have hsplit : ∃ s, (grids f m e).findSome? (fun k =>
      ((of f m e).neighbour? tie k).map fun d => Significant.ofMultiple d k) = some s := by
    rw [← Option.isSome_iff_exists, List.findSome?_isSome_iff]
    exact ⟨i, hi, by simpa [Option.isSome_iff_ne_none] using hne⟩
  obtain ⟨s, hs⟩ := hsplit
  obtain ⟨before, k, after, hlist, hk, hbefore⟩ := List.findSome?_eq_some_iff.1 hs
  obtain ⟨d, hd, rfl⟩ := Option.map_eq_some_iff.1 hk
  refine ⟨d, k, ?_, ?_, (neighbour?_eq_some hd).2⟩
  · unfold shortest
    dsimp only
    rw [grids] at hs
    rw [hs]
  · -- a grid that comes earlier has no neighbour, one that comes later is finer
    have hpairwise := pairwise_grids (f := f) (m := m) (e := e)
    rw [hlist] at hi hpairwise
    rcases List.mem_append.1 hi with h | h
    · exact absurd (Option.map_eq_none_iff.1 (hbefore i h)) hne
    rcases List.mem_cons.1 h with rfl | h
    · exact le_rfl
    · exact ((List.pairwise_cons.1 (List.pairwise_append.1 hpairwise).2.1).1 i h).le

theorem digits_ofMultiple_le (d : ℕ) (k : ℤ) : (Significant.ofMultiple d k).digits ≤ d :=
  Nat.div_le_self _ _

/-- The place of the point is bounded by the range of the format. -/
theorem point_bounds (hm : 0 < m) (h : f.Holds m e) (hmin : f.minExp ≤ 0)
    (hmax : 0 ≤ f.precision + f.maxExp) :
    f.minExp < (of f m e).point f ∧ (of f m e).point f ≤ f.precision + f.maxExp := by
  obtain ⟨hlow, hhigh⟩ := point_spec hm h.2.1
  have hm' : (1 : ℚ) ≤ m := by exact_mod_cast hm
  have hceiling : (10 : ℚ) ^ ((of f m e).point f - 1) < 10 ^ (f.precision + f.maxExp) :=
    calc (10 : ℚ) ^ ((of f m e).point f - 1) ≤ m * 2 ^ e := hlow
      _ < 2 ^ (f.precision + e) := (Format.holds_iff.1 h).1.1.lt
      _ ≤ 2 ^ (f.precision + f.maxExp) :=
        zpow_le_zpow_right₀ (by norm_num) (by have := h.2.2.1; omega)
      _ ≤ 10 ^ (f.precision + f.maxExp) := zpow_le_zpow_left₀ hmax (by norm_num) (by norm_num)
  have hfloor : (10 : ℚ) ^ f.minExp < 10 ^ (of f m e).point f :=
    calc (10 : ℚ) ^ f.minExp ≤ 2 ^ (3 * f.minExp) := ten_pow_le_two_pow hmin
      _ ≤ 2 ^ e := zpow_le_zpow_right₀ (by norm_num) (by have := h.2.1; omega)
      _ ≤ m * 2 ^ e := le_mul_of_one_le_left (by positivity) hm'
      _ < 10 ^ (of f m e).point f := hhigh
  have hceiling := (zpow_lt_zpow_iff_right₀ (by norm_num)).1 hceiling
  have hfloor := (zpow_lt_zpow_iff_right₀ (by norm_num)).1 hfloor
  omega

/-- The digits are few, and their point is near to the range of the format. -/
theorem shortest_bounds (tie : Tie) (hm : 0 < m) (he : f.minExp ≤ e) :
    digitCount (shortest tie f m e).digits ≤ f.decimalDigits + 1 ∧
      (of f m e).point f - f.decimalDigits < (shortest tie f m e).point ∧
      (shortest tie f m e).point ≤ (of f m e).point f + f.decimalDigits + 1 := by
  obtain ⟨d, k, hshortest, ⟨hk, hk'⟩, hd⟩ := shortest_eq_ofMultiple tie f m e
  obtain ⟨hfloor, -⟩ := floor_spec (f := f) hm e k
  obtain ⟨-, hpoint⟩ := point_spec hm he
  have hfloor : (of f m e).floor k < 10 ^ f.decimalDigits := by
    have hlt : ((of f m e).floor k : ℚ) * 10 ^ k < 10 ^ (f.decimalDigits : ℤ) * 10 ^ k := by
      rw [← zpow_add₀ (by norm_num)]
      exact (hfloor.trans_lt hpoint).trans_le (zpow_le_zpow_right₀ (by norm_num) (by omega))
    have hlt := lt_of_mul_lt_mul_right hlt (by positivity)
    rw [zpow_natCast] at hlt
    exact_mod_cast hlt
  have hd : d < 10 ^ (f.decimalDigits + 1) := by
    rw [pow_succ]
    omega
  have hcount := (digitCount_le_iff (Nat.succ_pos f.decimalDigits)).2 hd
  have hpos := digitCount_pos d
  rw [hshortest]
  refine ⟨(digitCount_le_iff (Nat.succ_pos f.decimalDigits)).2
    (lt_of_le_of_lt (digits_ofMultiple_le d k) hd), ?_, ?_⟩
  · rw [Significant.ofMultiple_eq]
    dsimp only
    omega
  · rw [Significant.ofMultiple_eq]
    dsimp only
    omega

/-- On a grid that is finer than the format one of the two neighbours of a float is rounded to it.
-/
theorem exists_neighbour_rounds (hp : 1 < f.precision) (hm : m < twoPow f.precision) {q : ℕ} {i : ℤ}
    (hfloor : (q : ℚ) * 10 ^ i ≤ m * 2 ^ e) (hfloor' : (m : ℚ) * 2 ^ e < (q + 1) * 10 ^ i)
    (hgrid : (10 : ℚ) ^ i * twoPow f.precision ≤ m * 2 ^ e) :
    ∃ a, (a = q ∨ a = q + 1) ∧ f.Rounds (a * 10 ^ i) m e := by
  have hunit : (0 : ℚ) < 2 ^ e := by positivity
  have hpow : (0 : ℚ) < twoPow f.precision := by exact_mod_cast twoPow_pos _
  by_cases hlast : m = twoPow (f.precision - 1) ∧ f.minExp < e
  · -- the numbers below lie closer together, but half a unit reaches the neighbour above
    have hhalf : (10 : ℚ) ^ i ≤ 2 ^ e / 2 := by
      have hdouble : (twoPow f.precision : ℚ) = 2 * m := by
        rw [hlast.1]
        exact_mod_cast Format.twoPow_precision hp
      have hm : (0 : ℚ) < m := by linarith
      rw [hdouble] at hgrid
      have hmul : (m : ℚ) * (10 ^ i * 2) ≤ m * 2 ^ e := by linarith
      linarith [le_of_mul_le_mul_left hmul hm]
    have heven : Even m := hlast.1 ▸ Format.even_twoPow_pred hp
    have hgap := Format.gapBelow_pos (f := f) (m := m) (e := e)
    refine ⟨q + 1, .inr rfl, ?_, ?_, fun hodd => absurd heven hodd⟩ <;>
      push_cast <;> linarith
  · have hgap : f.gapBelow m e = 2 ^ e := by rw [Format.gapBelow, if_neg hlast]
    have hstep : (10 : ℚ) ^ i < 2 ^ e := by
      have hm : (m : ℚ) < twoPow f.precision := by exact_mod_cast hm
      have hmul : (10 : ℚ) ^ i * twoPow f.precision < 2 ^ e * twoPow f.precision := by
        calc (10 : ℚ) ^ i * twoPow f.precision ≤ m * 2 ^ e := hgrid
          _ < twoPow f.precision * 2 ^ e := by gcongr
          _ = 2 ^ e * twoPow f.precision := mul_comm _ _
      exact lt_of_mul_lt_mul_right hmul hpow.le
    -- the step between the neighbours is smaller than a unit, so one of them is within half of it
    rcases le_or_gt ((m : ℚ) * 2 ^ e) (q * 10 ^ i + 10 ^ i / 2) with hnear | hnear
    · refine ⟨q, .inl rfl, ?_, ?_, fun _ => ⟨?_, ?_⟩⟩ <;> linarith
    · refine ⟨q + 1, .inr rfl, ?_, ?_, fun _ => ⟨?_, ?_⟩⟩ <;> push_cast <;> linarith

/-- On the last grid there is a neighbour, as it is finer than the format. -/
theorem exists_shortest (tie : Tie) (hp : 1 < f.precision)
    (hdigits : twoPow f.precision ≤ 10 ^ (f.decimalDigits - 1)) (hm : 0 < m)
    (h : f.Canonical m e) :
    ∃ d k, shortest tie f m e = .ofMultiple d k ∧ 0 < d ∧ f.Rounds (d * 10 ^ k) m e := by
  obtain ⟨hpoint, -⟩ := point_spec hm h.1.2
  generalize hP : (of f m e).point f = P at hpoint
  obtain ⟨hfloor, hfloor'⟩ := floor_spec (f := f) hm e (P - f.decimalDigits)
  have hcount : 0 < f.decimalDigits := Nat.succ_pos _
  have hgrid : (10 : ℚ) ^ (P - f.decimalDigits) * twoPow f.precision ≤ m * 2 ^ e := by
    have hcast : (twoPow f.precision : ℚ) ≤ 10 ^ (f.decimalDigits - 1) := by exact_mod_cast hdigits
    calc (10 : ℚ) ^ (P - f.decimalDigits) * twoPow f.precision
        ≤ 10 ^ (P - f.decimalDigits) * 10 ^ (f.decimalDigits - 1) := by gcongr
      _ = 10 ^ (P - 1) := by
        rw [← zpow_natCast, ← zpow_add₀ (by norm_num)]
        congr 1
        omega
      _ ≤ m * 2 ^ e := hpoint
  obtain ⟨a, ha, hrounds⟩ := exists_neighbour_rounds hp h.1.1 hfloor hfloor' hgrid
  have hmem : P - f.decimalDigits ∈ grids f m e := by
    rw [mem_grids, hP]
    omega
  obtain ⟨d, k, hshortest, -, hd⟩ := shortest_on_grid tie hmem ha ((contains_iff hm).2 hrounds)
  exact ⟨d, k, hshortest, pos_of_contains hm hd, (contains_iff hm).1 hd⟩

/-- **The shortest digits are rounded to the float.** -/
theorem nearest_shortest (tie : Tie) (hp : 1 < f.precision)
    (hdigits : twoPow f.precision ≤ 10 ^ (f.decimalDigits - 1)) (hm : 0 < m)
    (h : f.Canonical m e) : f.Nearest (shortest tie f m e).value m e := by
  obtain ⟨d, k, hshortest, hd, hrounds⟩ := exists_shortest tie hp hdigits hm h
  rw [hshortest, Significant.value_ofMultiple hd]
  exact (Format.nearest_iff_rounds hp (by positivity)).2 ⟨h, hrounds⟩

theorem shortest_digits_pos (tie : Tie) (hp : 1 < f.precision)
    (hdigits : twoPow f.precision ≤ 10 ^ (f.decimalDigits - 1)) (hm : 0 < m)
    (h : f.Canonical m e) : 0 < (shortest tie f m e).digits := by
  obtain ⟨d, k, hshortest, hd, -⟩ := exists_shortest tie hp hdigits hm h
  rw [hshortest]
  exact Significant.digits_ofMultiple_pos hd

end Binary

/-! ## Few digits come back -/

theorem exists_ten_multiple {i : ℤ} (hik : i ≤ k) (d : ℕ) :
    ∃ a : ℕ, (d : ℚ) * 10 ^ k = a * 10 ^ i := by
  obtain ⟨j, rfl⟩ : ∃ j : ℕ, k = i + j := ⟨(k - i).toNat, by omega⟩
  refine ⟨d * 10 ^ j, ?_⟩
  rw [zpow_add₀ (by norm_num), zpow_natCast]
  push_cast
  ring

section

variable {n D : ℕ} {K P : ℤ} {y u : ℚ}

theorem lt_of_grid_lt {a b : ℕ} {i : ℤ} (h : (a : ℚ) * 10 ^ i < b * 10 ^ i) : a < b := by
  have hpos : (0 : ℚ) < 10 ^ i := by positivity
  exact_mod_cast lt_of_mul_lt_mul_right h hpos.le

/-- Numbers on a grid that are closer than its step are equal. -/
theorem eq_of_close {a b : ℕ} {i : ℤ} (hlow : (a : ℚ) * 10 ^ i < b * 10 ^ i + 10 ^ i)
    (hhigh : (b : ℚ) * 10 ^ i < a * 10 ^ i + 10 ^ i) : a = b := by
  have hlow : a < b + 1 := lt_of_grid_lt (i := i) (by push_cast; linarith)
  have hhigh : b < a + 1 := lt_of_grid_lt (i := i) (by push_cast; linarith)
  omega

/-- A number on a grid that is closer to `y` than its step is one of the two next to `y`. -/
theorem neighbour_of_close {a q : ℕ} {i : ℤ} (hfloor : (q : ℚ) * 10 ^ i ≤ y)
    (hfloor' : y < (q + 1) * 10 ^ i) (hlow : y - 10 ^ i < a * 10 ^ i)
    (hhigh : a * 10 ^ i < y + 10 ^ i) : a = q ∨ a = q + 1 := by
  have hup : a < q + 2 := lt_of_grid_lt (i := i) (by push_cast; linarith)
  have hdown : q < a + 1 := lt_of_grid_lt (i := i) (by push_cast; linarith)
  omega

/-- A number with `n` digits that is near to `y` lies on the grid of the first `n` digits of `y`. -/
theorem grid_le_of_near (hD : 0 < D) (hDn : D < 10 ^ n) (hy : (10 : ℚ) ^ (P - 1) ≤ y) (hu : 0 < u)
    (hunit : u * (2 * 10 ^ n) ≤ y) (hlow : y - u / 2 ≤ D * 10 ^ K) : P - n ≤ K := by
  by_contra hlt
  have hlt := not_le.1 hlt
  have hpos : (0 : ℚ) < 10 ^ K := by positivity
  have hn : 0 < n := Nat.pos_of_ne_zero fun h => by
    rw [h, pow_zero] at hDn
    omega
  have hcount : digitCount D ≤ n := (digitCount_le_iff hn).2 hDn
  obtain ⟨-, hxlt⟩ := digits_mul_pow hD K
  -- the number has fewer digits before its point than `y`, so a power of ten lies between the two
  have hpow : (10 : ℚ) ^ (digitCount D + K) ≤ 10 ^ (P - 1) :=
    zpow_le_zpow_right₀ (by norm_num) (by omega)
  obtain ⟨b, hb⟩ := exists_ten_multiple (i := K) (k := P - 1) (by omega) 1
  rw [Nat.cast_one, one_mul] at hb
  have hDb : D + 1 ≤ b := lt_of_grid_lt (hb ▸ hxlt.trans_le hpow)
  have hDb : (D : ℚ) + 1 ≤ b := by exact_mod_cast hDb
  have hstep : (D : ℚ) * 10 ^ K + 10 ^ K ≤ y := by
    have hmul : ((D : ℚ) + 1) * 10 ^ K ≤ b * 10 ^ K := by gcongr
    linarith
  have hD' : (D : ℚ) * 10 ^ K ≤ 10 ^ n * 10 ^ K := by
    have hcast : (D : ℚ) ≤ 10 ^ n := by exact_mod_cast hDn.le
    gcongr
  have hten : (1 : ℚ) ≤ 10 ^ n := one_le_pow₀ (by norm_num)
  have hsmall : (10 : ℚ) ^ n * 10 ^ K ≤ 10 ^ n * (u / 2) := by
    gcongr
    linarith
  have hunit' : u ≤ u * 10 ^ n := le_mul_of_one_le_right hu.le hten
  linarith

end

/-- **Few digits come back.** If a float is nearest to a number of at most `n` digits, and the
format has enough bits for `n` digits, then the shortest digits of the float are that number. -/
theorem Binary.value_shortest {tie : Tie} {n D : ℕ} {K : ℤ} (hp : 1 < f.precision)
    (hn : 4 * 10 ^ n ≤ twoPow f.precision) (hdigits : n ≤ f.decimalDigits)
    (hnormal : twoPow (f.precision - 1) ≤ m) (hD : 0 < D) (hDn : D < 10 ^ n)
    (h : f.Nearest (D * 10 ^ K) m e) : (shortest tie f m e).value = D * 10 ^ K := by
  have hm : 0 < m := lt_of_lt_of_le (twoPow_pos _) hnormal
  have hrounds := h.rounds hp (by positivity)
  obtain ⟨hlow, hhigh⟩ := hrounds.bounds
  obtain ⟨hpoint, hpoint'⟩ := Rounding.point_spec hm h.canonical.1.2
  generalize hP : (Rounding.of f m e).point f = P at hpoint hpoint'
  have hpos : (0 : ℚ) < 2 ^ e := by positivity
  have hunit : (2 : ℚ) ^ e * (2 * 10 ^ n) ≤ m * 2 ^ e := by
    have hle : 2 * 10 ^ n ≤ m := by
      have hprecision := Format.twoPow_precision hp
      omega
    have hle : (2 : ℚ) * 10 ^ n ≤ m := by exact_mod_cast hle
    rw [mul_comm]
    gcongr
  have hK : P - n ≤ K := grid_le_of_near hD hDn hpoint hpos hunit hlow
  have hn0 : 0 < n := Nat.pos_of_ne_zero fun h => by
    rw [h, pow_zero] at hDn
    omega
  -- the grid of the first `n` digits is wider than the interval
  have hgrid : (2 : ℚ) ^ e * 2 < 10 ^ (P - n) := by
    have hten : (0 : ℚ) < 10 ^ n := by positivity
    rw [zpow_sub₀ (by norm_num), zpow_natCast, lt_div_iff₀ hten]
    linarith
  obtain ⟨a, ha⟩ := exists_ten_multiple hK D
  rw [ha] at hrounds hlow hhigh ⊢
  obtain ⟨hfloor, hfloor'⟩ := Rounding.floor_spec (f := f) hm e (P - n)
  have hcontains := (Rounding.contains_iff hm).2 hrounds
  have hneighbour := neighbour_of_close hfloor hfloor' (a := a) (by linarith) (by linarith)
  have hmem : P - n ∈ grids f m e := by
    rw [mem_grids, hP]
    omega
  obtain ⟨d, k, hshortest, hik, hd⟩ := shortest_on_grid tie hmem hneighbour hcontains
  obtain ⟨hdlow, hdhigh⟩ := ((Rounding.contains_iff hm).1 hd).bounds
  obtain ⟨b, hb⟩ := exists_ten_multiple hik d
  have hab : a = b := eq_of_close (i := P - n) (by linarith) (by linarith)
  rw [hshortest, Significant.value_ofMultiple (Rounding.pos_of_contains hm hd), hb, hab]

end RecordFilter.Number

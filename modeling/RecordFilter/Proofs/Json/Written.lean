import RecordFilter.Proofs.Json.Kept
import RecordFilter.Proofs.Number.Shortest
import RecordFilter.Proofs.Text.Digits
import RecordFilter.Value.OfJson

/-!
# The digits of a document's numbers

A number of a document is written as a numeral that stands for the same number
(`ofSignificant_writes`), so as a decimal it is what its digits say (`jsonDecimal?_integer`,
`jsonDecimal?_float`).
-/

namespace RecordFilter.Json

open RecordFilter.Filter RecordFilter.Number Text

/-! ## Digits around their point -/

namespace Numeral

variable {p : Positional} {s : Significant} {negative : Bool}

/-- The form that digits and the place of their point are written in. -/
structure Writes (n : Numeral) (negative : Bool) (s : Significant) : Prop where
  wellFormed : n.WellFormed
  negative_eq : n.negative = negative
  magnitude_eq : n.magnitude = s.value
  scale_le : n.scale.natAbs ≤ s.point.natAbs + digitCount s.digits + 1

theorem shift_none {whole places : List Char} :
    (⟨negative, whole, places, none⟩ : Numeral).shift = 0 := rfl

theorem value_eq_of_scale {d : ℕ} {scale : ℤ} (hd : d = s.digits)
    (hscale : scale = digitCount s.digits - s.point) : (d : ℚ) * 10 ^ (-scale) = s.value := by
  rw [Significant.value, hd, hscale, neg_sub]

/-- Zeros between the point and the digits. -/
theorem writes_small (negative : Bool) (h : s.point ≤ 0) :
    Writes ⟨negative, ['0'], List.replicate s.point.natAbs '0' ++ digits s.digits, none⟩
      negative s := by
  have hrun := (someDigits_digits s.digits).2
  have hcount : (digits s.digits).length = digitCount s.digits := rfl
  have hsignificand : ofDigits (['0'] ++ (List.replicate s.point.natAbs '0' ++ digits s.digits)) =
      s.digits := by
    have hzeros : ['0'] = List.replicate 1 '0' := rfl
    rw [hzeros, ofDigits_zeros_append, ofDigits_zeros_append, ofDigits_digits]
  have hscale : (⟨negative, ['0'], List.replicate s.point.natAbs '0' ++ digits s.digits, none⟩ :
      Numeral).scale = digitCount s.digits - s.point := by
    rw [scale, shift_none, List.length_append, List.length_replicate, hcount]
    omega
  refine ⟨(plain_of_digits negative (someDigits_of_all rfl)
    (run_append.2 ⟨run_zeros _, hrun⟩)).toWellFormed, rfl, ?_, ?_⟩
  · rw [magnitude]
    exact value_eq_of_scale hsignificand hscale
  · rw [hscale]
    omega

/-- Zeros between the digits and the point. -/
theorem writes_whole (negative : Bool) (h : (digitCount s.digits : ℤ) ≤ s.point) :
    Writes ⟨negative, digits s.digits ++ List.replicate (s.point.toNat - digitCount s.digits) '0',
      ['0'], none⟩ negative s := by
  obtain ⟨hne, hrun⟩ := someDigits_digits s.digits
  generalize hzeros : s.point.toNat - digitCount s.digits = zeros
  have hsignificand : ofDigits (digits s.digits ++ List.replicate zeros '0' ++ ['0']) =
      s.digits * 10 ^ (zeros + 1) := by
    have hlast : ['0'] = List.replicate 1 '0' := rfl
    rw [hlast, ofDigits_append_zeros, ofDigits_append_zeros, ofDigits_digits]
    ring
  have hpoint : s.point - digitCount s.digits = zeros := by omega
  refine ⟨(plain_of_digits negative ⟨by simp [hne], run_append.2 ⟨hrun, run_zeros _⟩⟩
    (run_of_all rfl)).toWellFormed, rfl, ?_, ?_⟩
  · rw [magnitude, significand, hsignificand, Significant.value, hpoint, zpow_natCast, scale,
      shift_none, List.length_singleton, sub_zero, Nat.cast_one, zpow_neg_one, pow_succ]
    push_cast
    ring
  · rw [scale, shift_none]
    simp

/-- The digits are split where the point is, or where the exponent puts it. -/
theorem writes_split (negative : Bool) {k : ℕ} {e : Option (Bool × List Char)} (hk : 0 < k)
    (hle : k ≤ digitCount s.digits) (he : ∀ q ∈ e, SomeDigits q.2)
    (hshift : (⟨negative, [], [], e⟩ : Numeral).shift = s.point - k) :
    Writes ⟨negative, (digits s.digits).take k, (digits s.digits).drop k, e⟩ negative s := by
  obtain ⟨hne, hrun⟩ := someDigits_digits s.digits
  have hcount : (digits s.digits).length = digitCount s.digits := rfl
  have hsplit : (digits s.digits).take k ++ (digits s.digits).drop k = digits s.digits :=
    List.take_append_drop _ _
  have hscale : (⟨negative, (digits s.digits).take k, (digits s.digits).drop k, e⟩ :
      Numeral).scale = digitCount s.digits - s.point := by
    have heq : (⟨negative, (digits s.digits).take k, (digits s.digits).drop k, e⟩ :
        Numeral).shift = s.point - k := hshift
    rw [scale, heq, List.length_drop, hcount]
    omega
  refine ⟨⟨⟨?_, fun c hc => hrun c (List.mem_of_mem_take hc)⟩,
    fun c hc => hrun c (List.mem_of_mem_drop hc), he⟩, rfl, ?_, ?_⟩
  · rw [Ne, List.take_eq_nil_iff]
    exact fun h => h.elim (fun h => hk.ne' h) hne
  · rw [magnitude, significand, hsplit]
    exact value_eq_of_scale (ofDigits_digits _) hscale
  · rw [hscale]
    omega

/-- **Digits are written as a numeral that stands for their number.** -/
theorem ofSignificant_writes (p : Positional) (negative : Bool) (s : Significant) :
    (ofSignificant p negative s).Writes negative s := by
  have hcount : (digits s.digits).length = digitCount s.digits := rfl
  have hpos := digitCount_pos s.digits
  unfold ofSignificant
  dsimp only
  split_ifs with hsmall hlarge hplaces
  · exact writes_small negative hsmall.2
  · rw [List.isEmpty_iff, List.drop_eq_nil_iff, hcount] at hplaces
    rw [List.take_of_length_le (by omega), hcount]
    exact writes_whole negative (by omega)
  · rw [List.isEmpty_iff, List.drop_eq_nil_iff, hcount] at hplaces
    have hzeros : s.point.toNat - (digits s.digits).length = 0 := by omega
    rw [hzeros, List.replicate_zero, List.append_nil]
    refine writes_split negative (by omega) (by omega) (by simp) ?_
    have hcast : (s.point.toNat : ℤ) = s.point := Int.toNat_of_nonneg hlarge.1.le
    rw [hcast, sub_self, shift_none]
  · refine writes_split negative one_pos hpos ?_ ?_
    · rintro q ⟨⟩
      exact someDigits_digits _
    · rw [shift]
      dsimp only
      have hsign : decide (s.point < 1) = decide (s.point - 1 < 0) :=
        decide_eq_decide.2 sub_neg.symm
      rw [ofDigits_digits, hsign, signed_natAbs, Nat.cast_one]

end Numeral

/-! ## Numbers as decimals -/

theorem value_signed_congr {negative : Bool} {a b : ℕ} {s t : ℤ}
    (h : (a : ℚ) * 10 ^ (-s) = b * 10 ^ (-t)) :
    (⟨signed negative a, s⟩ : Decimal).value = (⟨signed negative b, t⟩ : Decimal).value := by
  unfold Decimal.value
  cases negative with
  | false => exact h
  | true =>
    simp only [signed, if_true]
    push_cast
    rw [neg_mul, neg_mul, h]

theorem fitsWord_of_natAbs_le {i : ℤ} (h : i.natAbs ≤ 2000) : fitsWord 64 i = true := by
  have hbound : 2000 < twoPow ((64 : ℕ) - 1) := by decide
  rw [fitsWord_iff]
  omega

/-- An integer of a document is a decimal without places. -/
theorem jsonDecimal?_integer (i : ℤ) :
    Value.jsonDecimal? (.number (.integer i)) = some ⟨i, 0⟩ := by
  have hplain : (Numeral.ofInt i).Plain := Numeral.plain_of_digits _ (someDigits_digits _) .nil
  have hread := hplain.decimalRead_write
    (fitsWord_of_natAbs_le (by rw [hplain.scale_eq]; exact Nat.zero_le _))
  have hdigits : signed (decide (i < 0)) (ofDigits (digits i.natAbs ++ [])) = i := by
    rw [List.append_nil, ofDigits_digits, signed_natAbs]
  calc Value.jsonDecimal? (.number (.integer i)) = Decimal.read (Numeral.ofInt i).write := rfl
    _ = some ⟨signed (decide (i < 0)) (ofDigits (digits i.natAbs ++ [])),
        (Numeral.ofInt i).scale⟩ := hread
    _ = some ⟨i, 0⟩ := by
      rw [hdigits, hplain.scale_eq]
      rfl

theorem Numeral.Writes.decimalRead_write {n : Numeral} {negative : Bool} {s : Significant}
    (h : n.Writes negative s) (hpoint : s.point.natAbs ≤ 1500)
    (hcount : digitCount s.digits ≤ 100) :
    Decimal.read n.write = some ⟨signed negative n.significand, n.scale⟩ := by
  have hscale := h.scale_le
  rw [h.wellFormed.decimalRead_write (fitsWord_of_natAbs_le (by omega)), h.negative_eq]

theorem jsonDecimal?_of_ofFloat? {x : Double} {n : Numeral}
    (h : Numeral.ofFloat? positionalDouble x = some n) :
    Value.jsonDecimal? (.number (.float x)) = Decimal.read n.write := by
  rw [Value.jsonDecimal?, Number.toRaw, Raw.ofFloat, h]
  rfl

/-- A double of a document is the decimal with its shortest digits. -/
theorem jsonDecimal?_float (negative : Bool) {m : ℕ} {e : ℤ} (h : Format.double.Holds m e) :
    ∃ n : Numeral, Value.jsonDecimal? (.number (.float (.finite negative m e h))) =
        some ⟨signed negative n.significand, n.scale⟩ ∧
      n.magnitude = if m = 0 then 0 else (Binary.shortest .toEven .double m e).value := by
  by_cases hm : m = 0
  · have hnumeral : Numeral.ofFloat? positionalDouble (.finite negative m e h : Double) =
        some ⟨negative, ['0'], ['0'], none⟩ := by rw [Numeral.ofFloat?, if_pos hm]
    refine ⟨⟨negative, ['0'], ['0'], none⟩, ?_, ?_⟩
    · rw [jsonDecimal?_of_ofFloat? hnumeral]
      have hplain : (⟨negative, ['0'], ['0'], none⟩ : Numeral).Plain :=
        Numeral.plain_of_digits negative (Numeral.someDigits_of_all rfl) (run_of_all rfl)
      have hscale : (⟨negative, ['0'], ['0'], none⟩ : Numeral).scale = 1 := rfl
      exact hplain.decimalRead_write (fitsWord_of_natAbs_le (by rw [hscale]; norm_num))
    · rw [if_pos hm]
      exact zero_mul _
  · have hnumeral : Numeral.ofFloat? positionalDouble (.finite negative m e h : Double) =
        some (.ofSignificant positionalDouble negative (Binary.shortest .toEven .double m e)) := by
      rw [Numeral.ofFloat?, if_neg hm]
    have hpos := Nat.pos_of_ne_zero hm
    obtain ⟨hcount, hlow, hhigh⟩ := Binary.shortest_bounds .toEven hpos h.2.1
    obtain ⟨hpoint, hpoint'⟩ := Binary.point_bounds hpos h (by decide) (by decide)
    have hdigits : Format.double.decimalDigits = 17 := rfl
    have hmin : Format.double.minExp = -1074 := rfl
    have hmax : Format.double.precision + Format.double.maxExp = 1024 := rfl
    have hwrites := Numeral.ofSignificant_writes positionalDouble negative
      (Binary.shortest .toEven .double m e)
    refine ⟨.ofSignificant positionalDouble negative (Binary.shortest .toEven .double m e), ?_, ?_⟩
    · rw [jsonDecimal?_of_ofFloat? hnumeral]
      exact hwrites.decimalRead_write (by omega) (by omega)
    · rw [hwrites.magnitude_eq, if_neg hm]

end RecordFilter.Json

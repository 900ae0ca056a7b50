import RecordFilter.Proofs.Json.Numerals
import RecordFilter.Proofs.Text.Digits

/-!
# Decimals are read back

The text of a decimal is read as the same number (`Decimal.read_write`). It is read as the same
decimal, too, unless zeros at its end were written out that its scale stood for
(`Decimal.filled`).

A decimal is written in one of five forms. Four of them are numerals, and the fifth is one but for
a capital letter before its exponent.
-/

namespace RecordFilter.Number.Decimal

open RecordFilter.Filter RecordFilter.Json Text

/-! ## Forms -/

/-- A text is read like a numeral with this sign, these digits and this scale. -/
def ReadsAs (s : List Char) (negative : Bool) (m : ℕ) (scale : ℤ) : Prop :=
  ∃ n : Numeral, n.WellFormed ∧ n.negative = negative ∧ n.significand = m ∧ n.scale = scale ∧
    read s = read n.write

theorem ReadsAs.read_eq {s : List Char} {negative : Bool} {m : ℕ} {scale : ℤ}
    (h : ReadsAs s negative m scale) (hscale : fitsWord 64 scale = true) :
    read s = some ⟨signed negative m, scale⟩ := by
  obtain ⟨n, hn, rfl, rfl, rfl, hread⟩ := h
  rw [hread, hn.decimalRead_write hscale]

section

variable {ds : List Char} {zeros : ℕ} (negative : Bool)

/-- A minus before a number below zero. -/
def signText (negative : Bool) : List Char := if negative then ['-'] else []

/-- Digits with zeros at their end. -/
theorem readsAs_filled (hds : SomeDigits ds) (zeros : ℕ) :
    ReadsAs (signText negative ++ (ds ++ List.replicate zeros '0')) negative
      (ofDigits ds * 10 ^ zeros) 0 := by
  have hwhole : SomeDigits (ds ++ List.replicate zeros '0') :=
    ⟨List.append_ne_nil_of_left_ne_nil hds.1 _, run_append.2 ⟨hds.2, run_zeros zeros⟩⟩
  have hn := Numeral.plain_of_digits negative hwhole .nil
  refine ⟨_, hn.toWellFormed, rfl, ?_, rfl, ?_⟩
  · rw [Numeral.significand, List.append_nil, ofDigits_append_zeros]
  · rw [hn.write_eq, Numeral.fraction, List.isEmpty_nil, if_pos rfl, List.append_nil]
    rfl

/-- Digits with a positive exponent. -/
theorem readsAs_raised (hds : SomeDigits ds) (zeros : ℕ) :
    ReadsAs (signText negative ++ (ds ++ 'e' :: '+' :: Text.digits zeros)) negative (ofDigits ds)
      (-zeros) := by
  let n : Numeral := ⟨negative, ds, [], some (false, Text.digits zeros)⟩
  have hn : n.WellFormed := ⟨hds, .nil, by rintro p ⟨⟩; exact someDigits_digits zeros⟩
  refine ⟨n, hn, rfl, ?_, ?_, ?_⟩
  · rw [Numeral.significand, List.append_nil]
  · simp [n, Numeral.scale, Numeral.shift, signed, ofDigits_digits]
  · simp [n, Numeral.write, signText]

/-- Digits with a point among them. -/
theorem readsAs_split (hds : SomeDigits ds) (hzeros : 0 < zeros) (hlt : zeros < ds.length) :
    ReadsAs (signText negative ++
      (ds.take (ds.length - zeros) ++ '.' :: ds.drop (ds.length - zeros))) negative (ofDigits ds)
      zeros := by
  have hwhole : SomeDigits (ds.take (ds.length - zeros)) := by
    refine ⟨List.ne_nil_of_length_pos ?_, fun c hc => hds.2 c (List.mem_of_mem_take hc)⟩
    rw [List.length_take]
    omega
  have hlength : (ds.drop (ds.length - zeros)).length = zeros := by
    rw [List.length_drop]
    omega
  have hplaces : (ds.drop (ds.length - zeros)).isEmpty = false :=
    List.isEmpty_eq_false_iff.2 (List.ne_nil_of_length_pos (hlength.symm ▸ hzeros))
  have hrun : Run Char.isDigit (ds.drop (ds.length - zeros)) := fun c hc =>
    hds.2 c (List.mem_of_mem_drop hc)
  have hn := Numeral.plain_of_digits negative hwhole hrun
  refine ⟨_, hn.toWellFormed, rfl, ?_, ?_, ?_⟩
  · rw [Numeral.significand, List.take_append_drop]
  · rw [hn.scale_eq, hlength]
  · rw [hn.write_eq, Numeral.fraction, hplaces, if_neg Bool.false_ne_true, List.append_assoc]
    rfl

/-- Digits behind the point, with zeros before them. -/
theorem readsAs_padded (hds : SomeDigits ds) (hle : ds.length ≤ zeros) :
    ReadsAs (signText negative ++
      '0' :: '.' :: (List.replicate (zeros - ds.length) '0' ++ ds)) negative (ofDigits ds)
      zeros := by
  have hplaces : Run Char.isDigit (List.replicate (zeros - ds.length) '0' ++ ds) :=
    run_append.2 ⟨run_zeros _, hds.2⟩
  have hempty : (List.replicate (zeros - ds.length) '0' ++ ds).isEmpty = false :=
    List.isEmpty_eq_false_iff.2 (List.append_ne_nil_of_right_ne_nil _ hds.1)
  have hzero : SomeDigits ['0'] := Numeral.someDigits_of_all rfl
  have hn := Numeral.plain_of_digits negative hzero hplaces
  refine ⟨_, hn.toWellFormed, rfl, ?_, ?_, ?_⟩
  · have hzero : ['0'] = List.replicate 1 '0' := rfl
    rw [Numeral.significand, hzero, ofDigits_zeros_append, ofDigits_zeros_append]
  · rw [hn.scale_eq, List.length_append, List.length_replicate, Nat.sub_add_cancel hle]
  · rw [hn.write_eq, Numeral.fraction, hempty, if_neg Bool.false_ne_true, List.append_assoc]
    rfl

/-- Digits with a point behind the first and a negative exponent. -/
theorem readsAs_lowered (hds : SomeDigits ds) (hle : ds.length ≤ zeros) :
    ReadsAs (signText negative ++
      (pointAfterFirst ds ++ 'E' :: '-' :: Text.digits (zeros + 1 - ds.length))) negative
      (ofDigits ds) zeros := by
  obtain ⟨hne, hrun⟩ := hds
  obtain ⟨c, places, rfl⟩ := List.exists_cons_of_ne_nil hne
  obtain ⟨hc, hplaces⟩ := run_cons.1 hrun
  let shift := zeros + 1 - (c :: places).length
  let n : Numeral := ⟨negative, [c], places, some (true, Text.digits shift)⟩
  have hn : n.WellFormed :=
    ⟨⟨List.cons_ne_nil _ _, run_cons.2 ⟨hc, .nil⟩⟩, hplaces, by
      rintro p ⟨⟩
      exact someDigits_digits shift⟩
  have hmantissa : n.mantissa = signText negative ++ pointAfterFirst (c :: places) := by
    cases places <;> simp [n, Numeral.mantissa, Numeral.fraction, pointAfterFirst, signText]
  refine ⟨n, hn, rfl, rfl, ?_, ?_⟩
  · rw [List.length_cons] at hle
    simp only [n, shift, Numeral.scale, Numeral.shift, signed, if_true, ofDigits_digits,
      List.length_cons]
    omega
  · rw [← List.append_assoc, ← hmantissa, hn.decimalRead_capital]
    rfl

/-- What is written for a magnitude above zero. -/
theorem readsAs_writeDigits (hds : SomeDigits ds) (scale : ℤ) :
    if scale ≤ 0 ∧ scale.natAbs ≤ extent.trailingZeros then
      ReadsAs (signText negative ++ writeDigits ds scale) negative
        (ofDigits ds * 10 ^ scale.natAbs) 0
    else ReadsAs (signText negative ++ writeDigits ds scale) negative (ofDigits ds) scale := by
  unfold writeDigits
  dsimp only
  by_cases hscale : scale ≤ 0
  · have hcast : scale = -(scale.natAbs : ℤ) := by omega
    by_cases hzeros : scale.natAbs ≤ extent.trailingZeros
    · rw [if_pos ⟨hscale, hzeros⟩, if_pos hscale, if_pos hzeros]
      exact readsAs_filled negative hds scale.natAbs
    · have hraised := readsAs_raised negative hds scale.natAbs
      rw [← hcast] at hraised
      rwa [if_neg fun h => hzeros h.2, if_pos hscale, if_neg hzeros]
  · have hcast : (scale.natAbs : ℤ) = scale := by omega
    rw [if_neg fun h => hscale h.1, if_neg hscale]
    generalize scale.natAbs = zeros at hcast
    subst hcast
    split_ifs with hlt hleading
    · exact readsAs_split negative hds (by omega) hlt
    · exact readsAs_padded negative hds (not_lt.1 hlt)
    · exact readsAs_lowered negative hds (not_lt.1 hlt)

end

/-! ## Whole decimals -/

/-- A decimal with the zeros at its end as digits, if they are written out; a zero has no scale. -/
def filled (a : Decimal) : Decimal :=
  if a.digits = 0 then ⟨0, 0⟩
  else if a.scale ≤ 0 ∧ a.scale.natAbs ≤ extent.trailingZeros then
    ⟨a.digits * 10 ^ a.scale.natAbs, 0⟩
  else a

/-- Filling does not change the number. -/
theorem value_filled (a : Decimal) : a.filled.value = a.value := by
  unfold filled
  split_ifs with hzero hscale
  · rw [value, value, hzero, Int.cast_zero, zero_mul, zero_mul]
  · have hcast : -a.scale = (a.scale.natAbs : ℤ) := by omega
    rw [value, value, hcast, zpow_natCast, neg_zero, zpow_zero, mul_one]
    push_cast
    rfl
  · rfl

theorem write_eq {a : Decimal} (h : a.digits ≠ 0) :
    a.write = signText (decide (a.digits < 0)) ++
      writeDigits (Text.digits a.digits.natAbs) a.scale := by
  rw [write, if_neg h, signText]
  by_cases hneg : a.digits < 0 <;> simp [hneg]

theorem signed_mul (negative : Bool) (m k : ℕ) :
    signed negative (m * k) = signed negative m * k := by
  cases negative <;> simp [signed]

/-- **The text of a decimal is read as that number.** -/
theorem read_write {a : Decimal} (h : fitsWord 64 a.scale = true) :
    read a.write = some a.filled := by
  by_cases hzero : a.digits = 0
  · rw [write, filled, if_pos hzero, if_pos hzero]
    rfl
  · have hform := readsAs_writeDigits (decide (a.digits < 0)) (someDigits_digits a.digits.natAbs)
      a.scale
    rw [ofDigits_digits] at hform
    rw [write_eq hzero, filled, if_neg hzero]
    split_ifs at hform ⊢ with hscale
    · rw [hform.read_eq (by decide), signed_mul, signed_natAbs]
      push_cast
      rfl
    · rw [hform.read_eq h, signed_natAbs]

/-- A decimal that is read from a text has a scale of 64 bits. -/
theorem fitsWord_of_read {s : List Char} {a : Decimal} (h : read s = some a) :
    fitsWord 64 a.scale = true := by
  simp only [read, Option.bind_eq_bind, Option.bind_eq_some_iff] at h
  obtain ⟨_, -, _, -, h⟩ := h
  split at h
  · next hscale =>
    cases h
    exact hscale
  · cases h

end RecordFilter.Number.Decimal

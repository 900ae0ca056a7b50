import RecordFilter.Proofs.Json.Kept
import RecordFilter.Proofs.Text.Digits
import RecordFilter.Value.OfJson

/-!
# Integers of fixed width

A kind of integers holds the integers of its range (`Kind.InRange`), each as one value
(`Kind.ofInt?_eq_some_iff`). A document keeps an integer up to `2 ^ 64` (`jsonRead_ofInt`), but it
is made a value by way of a signed word of 64 bits. Integers out of the range of a kind are
therefore refused in two ways: below `2 ^ 63` for being out of range, and from there on for having
the wrong type, as if they were no integers (`integer_narrowed`).
-/

namespace RecordFilter

open RecordFilter.Filter RecordFilter.Number RecordFilter.Json Text

/-! ## Ranges -/

namespace Kind

/-- The width of a kind of integers. -/
def bits : Kind → ℕ
  | int16 => 16
  | int32 => 32
  | _ => 64

/-- The integers that a kind of integers holds. -/
def InRange (k : Kind) (i : ℤ) : Prop := -2 ^ (k.bits - 1) ≤ i ∧ i < 2 ^ (k.bits - 1)

instance (k : Kind) (i : ℤ) : Decidable (k.InRange i) := inferInstanceAs (Decidable (_ ∧ _))

/-- An integer within the range as a value of the kind. -/
def ofInt : Kind → ℤ → Value
  | int16, i => .int16 (.ofInt i)
  | int32, i => .int32 (.ofInt i)
  | _, i => .int64 (.ofInt i)

/-- The value of a kind that is an integer, if there is one. -/
def ofInt? (k : Kind) (i : ℤ) : Option Value := if fitsWord k.bits i then some (k.ofInt i) else none

variable {k : Kind} {i : ℤ} {v w : Value}

theorem fitsWord_bits_iff : fitsWord k.bits i = true ↔ k.InRange i := by
  rw [fitsWord_iff, InRange]
  cases k <;> exact Iff.rfl

theorem ofInt?_of_inRange (h : k.InRange i) : k.ofInt? i = some (k.ofInt i) :=
  if_pos (fitsWord_bits_iff.2 h)

/-- No kind holds more integers than the widest. -/
theorem InRange.int64 (h : k.InRange i) : int64.InRange i := by
  rw [← fitsWord_bits_iff] at h ⊢
  refine fitsWord_mono ?_ h
  cases k <;> decide

theorem ofInt_spec (hk : k.isInteger = true) (h : k.InRange i) :
    (k.ofInt i).kind = k ∧ (k.ofInt i).toInt? = some i := by
  obtain ⟨hmin, hmax⟩ := h
  cases k with
  | int16 => exact ⟨rfl, congrArg some (Int16.toInt_ofInt_of_le hmin hmax)⟩
  | int32 => exact ⟨rfl, congrArg some (Int32.toInt_ofInt_of_le hmin hmax)⟩
  | int64 => exact ⟨rfl, congrArg some (Int64.toInt_ofInt_of_le hmin hmax)⟩
  | _ => cases hk

/-- An integer is in the range of the kind of its values. -/
theorem inRange_of_toInt? (h : v.toInt? = some i) : v.kind.InRange i := by
  cases v with
  | int16 n =>
    obtain rfl := Option.some.inj h
    exact ⟨n.le_toInt, n.toInt_lt⟩
  | int32 n =>
    obtain rfl := Option.some.inj h
    exact ⟨n.le_toInt, n.toInt_lt⟩
  | int64 n =>
    obtain rfl := Option.some.inj h
    exact ⟨n.le_toInt, n.toInt_lt⟩
  | _ => cases h

/-- A kind has one value for an integer. -/
theorem ofInt_of_toInt? (h : v.toInt? = some i) : v.kind.ofInt i = v := by
  cases v with
  | int16 n =>
    obtain rfl := Option.some.inj h
    exact congrArg Value.int16 n.ofInt_toInt
  | int32 n =>
    obtain rfl := Option.some.inj h
    exact congrArg Value.int32 n.ofInt_toInt
  | int64 n =>
    obtain rfl := Option.some.inj h
    exact congrArg Value.int64 n.ofInt_toInt
  | _ => cases h

/-- **The value of a kind that is an integer.** -/
theorem ofInt?_eq_some_iff (hk : k.isInteger = true) :
    k.ofInt? i = some v ↔ v.kind = k ∧ v.toInt? = some i := by
  unfold ofInt?
  constructor
  · intro h
    split at h
    · next hfits =>
      obtain rfl := Option.some.inj h
      exact ofInt_spec hk (fitsWord_bits_iff.1 hfits)
    · cases h
  · rintro ⟨rfl, hv⟩
    rw [← ofInt?, ofInt?_of_inRange (inRange_of_toInt? hv), ofInt_of_toInt? hv]

theorem ofInt?_eq_none_iff : k.ofInt? i = none ↔ ¬ k.InRange i := by
  rw [ofInt?, ← fitsWord_bits_iff]
  split <;> simp_all

/-- There is a value exactly for the integers of the range. -/
theorem exists_ofInt?_iff : (∃ v, k.ofInt? i = some v) ↔ k.InRange i := by
  rw [← Option.ne_none_iff_exists', Ne, ofInt?_eq_none_iff, not_not]

end Kind

/-! ## Documents -/

namespace Json

/-- The digits of a number do not begin with a zero, unless it is zero. -/
theorem head?_digits_ne_zero {m : ℕ} (hm : 0 < m) : (digits m).head? ≠ some '0' := by
  intro hhead
  cases hdigits : digits m with
  | nil =>
    rw [hdigits] at hhead
    cases hhead
  | cons c w =>
    rw [hdigits] at hhead
    obtain rfl := Option.some.inj hhead
    have hvalue : ofDigits w = m := by
      rw [← ofDigits_digits m, hdigits]
      exact (ofDigits_zeros_append 1 w).symm
    have hrun := (someDigits_digits m).2
    rw [hdigits, run_cons] at hrun
    have hlt : m < 10 ^ w.length := hvalue ▸ ofDigits_lt hrun.2
    have hcount : digitCount m = w.length + 1 := by
      rw [digitCount, hdigits, List.length_cons]
    cases w with
    | nil => exact absurd hlt (not_lt.2 hm)
    | cons d w =>
      have hle := (digitCount_le_iff (Nat.succ_pos w.length)).2 hlt
      rw [hcount] at hle
      exact absurd hle (Nat.not_succ_le_self _)

theorem write_ofInt (i : ℤ) : (Numeral.ofInt i).write = Text.ofInt i := by
  rw [Text.ofInt, Numeral.ofInt]
  split <;> simp_all [Numeral.write]

theorem plain_ofInt (i : ℤ) : (Numeral.ofInt i).Plain :=
  Numeral.plain_of_digits _ (someDigits_digits _) .nil

theorem strict_ofInt (i : ℤ) : (Numeral.ofInt i).Strict := by
  rcases Nat.eq_zero_or_pos i.natAbs with hzero | hpos
  · refine .inl ?_
    rw [Numeral.ofInt, hzero]
    rfl
  · exact .inr (head?_digits_ne_zero hpos)

/-- The numeral of an integer stands for that integer, up to the size of a word. -/
theorem ofNumeral_ofInt {i : ℤ} (hmin : -2 ^ 63 ≤ i) (hmax : i < 2 ^ 64) :
    Number.ofNumeral (.ofInt i) = some (.integer i) := by
  have hvalue : ofDigits (Numeral.ofInt i).whole = i.natAbs := ofDigits_digits _
  have hbound : (wordBound : ℤ) = 2 ^ 64 := by decide
  have hkept := ofNumeral_eq_ofWord (plain_ofInt i) rfl (by omega)
  have hword : ofWord (decide (i < 0)) i.natAbs = some (.integer i) := by
    rcases lt_or_ge i 0 with hneg | hpos
    · have hcast : -(i.natAbs : ℤ) = i := by omega
      have hfits : fitsWord 64 i = true :=
        Kind.fitsWord_bits_iff (k := .int64).2 ⟨hmin, hneg.trans (by decide)⟩
      rw [ofWord, decide_eq_true hneg, if_neg (by decide), hcast, if_pos ⟨by omega, hfits⟩]
    · rw [ofWord, decide_eq_false (not_lt.2 hpos), Int.natAbs_of_nonneg hpos]
      rfl
  rw [hkept, hvalue]
  exact hword

/-- **The text of an integer is a document that is that integer**, up to the size of a word. -/
theorem jsonRead_ofInt {i : ℤ} (hmin : -2 ^ 63 ≤ i) (hmax : i < 2 ^ 64) :
    Json.read (Text.ofInt i) = some (.number (.integer i)) := by
  rw [← write_ofInt, (plain_ofInt i).jsonRead_write, ofNumeral_ofInt hmin hmax]
  exact ⟨strict_ofInt i, rfl⟩

end Json

namespace Value

variable {k : Kind} {i : ℤ} {v : Value}

/-- What a kind of integers makes of a number. -/
theorem ofJson_number (hk : k.isInteger = true) (j : Json.Number) :
    ofJson k (.number j) =
      match j.toInt? with
      | none => .error (.typeMismatch k (.number j))
      | some i =>
        match k.ofInt? i with
        | some v => .ok v
        | none => .error (.outOfRange k (.number j)) := by
  have hread : ofJson k (.number j) = integerOfJson k k.bits k.ofInt (.number j) := by
    cases k <;> first | rfl | cases hk
  rw [hread, integerOfJson, jsonInt?]
  cases j.toInt? with
  | none => rfl
  | some i =>
    simp only [Kind.ofInt?]
    cases fitsWord k.bits i <;> rfl

theorem ofJson_number_eq_ok_iff (hk : k.isInteger = true) {j : Json.Number} :
    ofJson k (.number j) = .ok v ↔ ∃ i, j.toInt? = some i ∧ v.kind = k ∧ v.toInt? = some i := by
  simp only [ofJson_number hk, ← Kind.ofInt?_eq_some_iff hk]
  cases j.toInt? with
  | none => simp
  | some i =>
    simp only [Option.some.injEq, exists_eq_left']
    cases k.ofInt? i <;> simp

/-- **What becomes of an integer of a document** as a value of a kind of integers. Every integer of
the range is the value that is this integer, and there is none for the others. These are said to be
out of range as far as they fit a signed word of 64 bits; from there on they are taken for something
that is no integer. -/
theorem integer_narrowed (hk : k.isInteger = true) (hmin : -2 ^ 63 ≤ i) (hmax : i < 2 ^ 64) :
    let j : Json := .number (.integer i)
    Json.read (Text.ofInt i) = some j ∧
      (∀ v, ofJson k j = .ok v ↔ v.kind = k ∧ v.toInt? = some i) ∧
      ((∃ v, ofJson k j = .ok v) ↔ k.InRange i) ∧
      (i < 2 ^ 63 → ¬ k.InRange i → ofJson k j = .error (.outOfRange k j)) ∧
      (2 ^ 63 ≤ i → ofJson k j = .error (.typeMismatch k j)) ∧
      (ReadError.outOfRange k j).message =
        s!"Value '{String.ofList (Text.ofInt i)}' is out of range for {k.name}" := by
  intro j
  have hword : i < 2 ^ 63 → (Json.Number.integer i).toInt? = some i := fun hlt =>
    if_pos (Kind.fitsWord_bits_iff (k := .int64).2 ⟨hmin, hlt⟩)
  have hok : ∀ v, ofJson k j = .ok v ↔ v.kind = k ∧ v.toInt? = some i := by
    intro v
    rw [ofJson_number_eq_ok_iff hk]
    constructor
    · rintro ⟨i', hi', hv⟩
      obtain ⟨⟨⟩, -⟩ := Json.Number.toInt?_eq_some.1 hi'
      exact hv
    · rintro ⟨rfl, hv⟩
      exact ⟨i, hword (Kind.inRange_of_toInt? hv).int64.2, rfl, hv⟩
  refine ⟨jsonRead_ofInt hmin hmax, hok, ?_, ?_, ?_, ?_⟩
  · simp only [hok, ← Kind.ofInt?_eq_some_iff hk]
    exact Kind.exists_ofInt?_iff
  · intro hlt hrange
    rw [ofJson_number hk, hword hlt]
    dsimp only
    rw [Kind.ofInt?_eq_none_iff.2 hrange]
  · intro hle
    have hnone : (Json.Number.integer i).toInt? = none := by
      refine if_neg fun hfits => ?_
      exact absurd (Kind.fitsWord_bits_iff (k := .int64).1 hfits).2 (not_lt.2 hle)
    rw [ofJson_number hk, hnone]
  · rw [← write_ofInt]
    rfl

/-- The least integer that is a word only without a sign. -/
theorem integer_narrowed_unsigned :
    let i : ℤ := 9223372036854775808
    let j : Json := .number (.integer i)
    Kind.int16.isInteger = true ∧ -2 ^ 63 ≤ i ∧ i < 2 ^ 64 ∧ 2 ^ 63 ≤ i ∧
      ofJson .int16 j = .error (.typeMismatch .int16 j) := by
  intro i j
  obtain ⟨-, -, -, -, hbeyond, -⟩ :=
    integer_narrowed (k := .int16) (i := i) rfl (by decide) (by decide)
  exact ⟨rfl, by decide, by decide, by decide, hbeyond (by decide)⟩

/-- An integer of a document that is out of range, and is not said to be so. -/
theorem unsigned_word_mismatches :
    let i : ℤ := 9223372036854775808
    let j : Json := .number (.integer i)
    Json.read (Text.ofInt i) = some j ∧ ¬ Kind.int16.InRange i ∧ ¬ Kind.int64.InRange i ∧
      ofJson .int16 j = .error (.typeMismatch .int16 j) ∧
      ofJson .int64 j = .error (.typeMismatch .int64 j) ∧
      ofJson .int16 j ≠ .error (.outOfRange .int16 j) ∧
      ofJson .int64 j ≠ .error (.outOfRange .int64 j) :=
  ⟨jsonRead_ofInt (by decide) (by decide), by decide, by decide, rfl, rfl, nofun, nofun⟩

end Value

end RecordFilter

import RecordFilter.Proofs.Filter.Literals
import RecordFilter.Text.Digits

/-!
# Runs of digits

The value of a run of digits: what more digits behind it do to it (`ofDigits_append`), how large it
can be (`ofDigits_lt`), and that the digits of a number have that number as their value
(`ofDigits_digits`).
-/

namespace RecordFilter.Text

open RecordFilter.Filter

variable {s : List Char}

theorem ofDigits_digits (n : ℕ) : ofDigits (digits n) = n :=
  Nat.ofDigitChars_toDigits (by decide) (by decide)

theorem someDigits_digits (n : ℕ) : SomeDigits (digits n) :=
  ⟨List.ne_nil_of_length_pos Nat.length_toDigits_pos,
    fun _ hc => Nat.isDigit_of_mem_toDigits (by decide) (by decide) hc⟩

/-- Digits behind a run move it up by as many places. -/
theorem ofDigits_append (s t : List Char) :
    ofDigits (s ++ t) = 10 ^ t.length * ofDigits s + ofDigits t :=
  (Nat.ofDigitChars_append 0).trans Nat.ofDigitChars_eq_ofDigitChars_zero

theorem run_zeros (k : ℕ) : Run Char.isDigit (List.replicate k '0') := by
  intro c hc
  rw [List.eq_of_mem_replicate hc]
  rfl

theorem ofDigits_zeros (k : ℕ) : ofDigits (List.replicate k '0') = 0 :=
  Nat.ofDigitChars_replicate_zero.trans (Nat.mul_zero _)

/-- Zeros at the head of a run do not count. -/
theorem ofDigits_zeros_append (k : ℕ) (s : List Char) :
    ofDigits (List.replicate k '0' ++ s) = ofDigits s := by
  rw [ofDigits_append, ofDigits_zeros, Nat.mul_zero, Nat.zero_add]

/-- Zeros at the end of a run are powers of ten. -/
theorem ofDigits_append_zeros (s : List Char) (k : ℕ) :
    ofDigits (s ++ List.replicate k '0') = ofDigits s * 10 ^ k := by
  rw [ofDigits_append, ofDigits_zeros, List.length_replicate, Nat.add_zero, Nat.mul_comm]

theorem digitValue_lt {c : Char} (h : c.isDigit = true) : digitValue c < 10 := by
  rw [Char.isDigit, Bool.and_eq_true, decide_eq_true_eq, decide_eq_true_eq] at h
  have hle : c.toNat ≤ 57 := h.2
  rw [digitValue]
  have hzero : '0'.toNat = 48 := rfl
  omega

theorem ofDigits_lt (h : Run Char.isDigit s) : ofDigits s < 10 ^ s.length := by
  induction s with
  | nil => exact Nat.one_pos
  | cons c s ih =>
    obtain ⟨hc, hs⟩ := run_cons.1 h
    have hfirst : ofDigits [c] = digitValue c := Nat.zero_add _
    calc ofDigits (c :: s)
      _ = 10 ^ s.length * digitValue c + ofDigits s := by
        rw [← List.singleton_append, ofDigits_append, hfirst]
      _ < 10 ^ s.length * digitValue c + 10 ^ s.length := Nat.add_lt_add_left (ih hs) _
      _ = 10 ^ s.length * (digitValue c + 1) := (Nat.mul_succ _ _).symm
      _ ≤ 10 ^ s.length * 10 := Nat.mul_le_mul_left _ (digitValue_lt hc)

/-! ## Signs -/

theorem signed_natAbs (i : ℤ) : signed (decide (i < 0)) i.natAbs = i := by
  by_cases h : i < 0
  · rw [decide_eq_true h]
    simp only [signed, if_true]
    omega
  · rw [decide_eq_false h]
    simp only [signed, Bool.false_eq_true, if_false]
    omega

end RecordFilter.Text

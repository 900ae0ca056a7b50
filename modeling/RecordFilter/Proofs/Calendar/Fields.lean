import RecordFilter.Calendar.Timestamp
import RecordFilter.Proofs.Text.Digits

/-!
# The fields of a timestamp

What each reader of a field takes from a text that begins with the digits it is after. A field of
all its digits is read alike by the readers with a zone and by those without one.
-/

namespace RecordFilter.Calendar.Timestamp

open RecordFilter.Filter Text

variable {n : ℕ} {c : Char} {ds s : List Char}

/-! ## Characters -/

theorem isBlank_eq_false_of_isDigit (h : c.isDigit = true) : isBlank c = false := by
  rw [Char.isDigit, Bool.and_eq_true, decide_eq_true_eq, decide_eq_true_eq] at h
  have hle : 48 ≤ c.toNat := h.1
  have hge : c.toNat ≤ 57 := h.2
  simp only [isBlank, Bool.or_eq_false_iff, Bool.and_eq_false_iff, decide_eq_false_iff_not,
    beq_eq_false_iff_ne]
  omega

theorem expect_cons (c : Char) (s : List Char) : expect c (c :: s) = some s := if_pos rfl

theorem expect_cons_of_ne {d : Char} (h : d ≠ c) : expect c (d :: s) = none := if_neg h

/-- A reader goes on with what the one before it has read. -/
theorem some_bind {α β : Type} (a : α) (f : α → Option β) : (some a >>= f) = f a := rfl

/-! ## Numbers -/

/-- A number of so many digits. -/
structure Figures (n : ℕ) where
  text : List Char
  digits : Digits n text

namespace Figures

/-- The number that the digits say. -/
def value (f : Figures n) : ℕ := ofDigits f.text

theorem fixed_append (f : Figures n) (s : List Char) :
    fixed n (f.text ++ s) = some (f.value, s) := by
  obtain ⟨hlen, hrun⟩ := f.digits
  simp only [fixed, List.take_left' hlen, List.drop_left' hlen, List.all_eq_true.2 hrun, hlen,
    decide_true, Bool.and_self, if_true, value]

theorem upTo_append (f : Figures n) (hn : n ≠ 0) (s : List Char) :
    upTo n (f.text ++ s) = some (f.value, s) := by
  obtain ⟨hlen, hrun⟩ := f.digits
  have hne : f.text.isEmpty = false := by
    rw [List.isEmpty_eq_false_iff, ← List.length_pos_iff, hlen]
    exact Nat.pos_of_ne_zero hn
  have htake : ((f.text ++ s).take n).takeWhile Char.isDigit = f.text := by
    rw [List.take_left' hlen]
    exact List.takeWhile_eq_self_iff.2 hrun
  simp only [upTo, htake, hne, List.drop_left]
  rfl

theorem skipBlanks_append (f : Figures n) (hn : n ≠ 0) (s : List Char) :
    skipBlanks (f.text ++ s) = f.text ++ s := by
  obtain ⟨hlen, hrun⟩ := f.digits
  cases htext : f.text with
  | nil =>
    rw [htext] at hlen
    exact absurd hlen.symm hn
  | cons c cs =>
    have hc := isBlank_eq_false_of_isDigit (hrun c (htext ▸ List.mem_cons_self))
    exact List.dropWhile_cons_of_neg (Bool.eq_false_iff.1 hc)

theorem short_append (f : Figures 2) (s : List Char) :
    short (f.text ++ s) = some (f.value, s) := by
  rw [short, f.skipBlanks_append (by decide), f.upTo_append (by decide)]

/-- Four digits are a year without a sign. -/
theorem readYear_append (f : Figures 4) (s : List Char) :
    readYear (f.text ++ s) = some ((f.value : ℤ), s) := by
  have hup := f.upTo_append (by decide) s
  obtain ⟨a, w, htext, ha, -⟩ := digits_succ_iff.1 f.digits
  rw [readYear, f.skipBlanks_append (by decide)]
  -- a digit is not a sign
  split
  · next heq =>
    rw [htext] at heq
    cases heq
    cases ha
  · next heq =>
    rw [htext] at heq
    cases heq
    cases ha
  · rw [hup]
    rfl

end Figures

/-! ## Fractions -/

/-- Of the digits behind the point nine count: the nanoseconds are rounded down. -/
theorem nanoseconds_eq (h : Run Char.isDigit ds) :
    nanoseconds ds = ofDigits ds * nanosPerSecond / 10 ^ ds.length := by
  have hpow : nanosPerSecond = 10 ^ 9 := rfl
  rw [nanoseconds, hpow]
  rcases Nat.le_total ds.length 9 with hle | hle
  · -- zeros fill up the nine places
    obtain ⟨k, hk⟩ := Nat.exists_eq_add_of_le hle
    have htake : (ds ++ List.replicate 9 '0').take 9 = ds ++ List.replicate k '0' := by
      rw [hk, List.take_length_add_append, List.take_replicate, Nat.min_eq_left (by omega)]
    rw [htake, ofDigits_append_zeros, hk, pow_add, Nat.mul_left_comm,
      Nat.mul_div_cancel_left _ (Nat.pow_pos (by decide))]
  · -- the places behind the ninth are a remainder
    obtain ⟨k, hk⟩ := Nat.exists_eq_add_of_le hle
    have hdrop : (ds.drop 9).length = k := by
      rw [List.length_drop, hk, Nat.add_sub_cancel_left]
    have hlt : ofDigits (ds.drop 9) < 10 ^ k :=
      hdrop ▸ ofDigits_lt fun c hc => h c (List.mem_of_mem_drop hc)
    have hsplit : ofDigits ds = 10 ^ k * ofDigits (ds.take 9) + ofDigits (ds.drop 9) := by
      conv_lhs => rw [← List.take_append_drop 9 ds, ofDigits_append, hdrop]
    rw [List.take_append_of_le_length hle, hk, pow_add, hsplit,
      Nat.mul_comm _ (10 ^ 9), Nat.mul_div_mul_left _ _ (by decide),
      Nat.mul_add_div (Nat.pow_pos (by decide)), Nat.div_eq_of_lt hlt, Nat.add_zero]

theorem nanoseconds_lt (h : Run Char.isDigit ds) : nanoseconds ds < nanosPerSecond := by
  have hrun : Run Char.isDigit ((ds ++ List.replicate 9 '0').take 9) := fun c hc =>
    run_append.2 ⟨h, run_zeros 9⟩ c (List.mem_of_mem_take hc)
  have hlen : ((ds ++ List.replicate 9 '0').take 9).length = 9 := by simp
  have hlt := ofDigits_lt hrun
  rw [hlen] at hlt
  exact hlt

/-- The fraction of a second, written with a point unless it has no places. -/
def fractionText : List Char → List Char
  | [] => []
  | places => '.' :: places

/-- A fraction is read to its end, if neither a point nor a digit follows it. -/
theorem fraction_append (hrun : Run Char.isDigit ds)
    (hs : Stops (fun c => c == '.' || c.isDigit) s) :
    fraction (fractionText ds ++ s) = some (nanoseconds ds, s) := by
  cases ds with
  | nil =>
    cases s with
    | nil => rfl
    | cons c s =>
      have hc := stops_cons.1 hs
      rw [Bool.or_eq_false_iff, beq_eq_false_iff_ne] at hc
      rw [fractionText, List.nil_append, fraction]
      · rfl
      · rintro s heq
        exact hc.1 (List.cons.inj heq).1
  | cons d ds =>
    have hstops : Stops Char.isDigit s := fun c hc => (Bool.or_eq_false_iff.1 (hs c hc)).2
    have hspan : spanDigits (d :: ds ++ s) = (d :: ds, s) :=
      splitWhile_eq_iff.2 ⟨hrun, rfl, hstops⟩
    rw [fractionText, List.cons_append, fraction, hspan]
    · rfl
    · exact nofun

end RecordFilter.Calendar.Timestamp

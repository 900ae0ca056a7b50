import RecordFilter.Proofs.Calendar.Reading
import RecordFilter.Proofs.Number.Powers
import RecordFilter.Value.Basic

/-!
# Points in time are read back

The written form of every point in time is read as that point in time, of all years, to the
nanosecond, and with its leap second.

The written form has seconds and no zone. Of a year with four digits it is a date of the grammar
(`exists_dayText`); other years have a sign, which only the reader without a zone takes
(`readYear_signed`). That sign is never taken for the one of a zone, as it stands before the letter
`T`.
-/

namespace RecordFilter.Calendar

open RecordFilter.Filter Text

namespace Timestamp

/-! ## Readers of numbers -/

variable {c : Char} {ds s : List Char} {width : ℕ}

/-- Digits that end before the largest width are read to their end. -/
theorem upTo_someDigits (hds : SomeDigits ds) (hwidth : ds.length ≤ width)
    (hs : Stops Char.isDigit s) : upTo width (ds ++ s) = some (ofDigits ds, s) := by
  obtain ⟨hne, hrun⟩ := hds
  have hrest : Stops Char.isDigit (s.take (width - ds.length)) := by
    intro c hc
    refine hs c ?_
    cases h : width - ds.length with
    | zero =>
      rw [h] at hc
      cases hc
    | succ k =>
      rw [h, List.head?_take, if_neg (Nat.succ_ne_zero k)] at hc
      exact hc
  have htake : ((ds ++ s).take width).takeWhile Char.isDigit = ds := by
    rw [List.take_append, List.take_of_length_le hwidth, List.takeWhile_append_of_pos hrun,
      hrest.takeWhile_eq, List.append_nil]
  have hempty : ds.isEmpty = false := List.isEmpty_eq_false_iff.2 hne
  simp only [upTo, htake, hempty, Bool.false_eq_true, if_false, List.drop_left]

/-- A year with a sign has any number of digits. -/
theorem readYear_signed (negative : Bool) (hds : SomeDigits ds) (hs : Stops Char.isDigit s) :
    readYear ((if negative then '-' else '+') :: (ds ++ s)) =
      some (signed negative (ofDigits ds), s) := by
  have hlength : ds.length ≤ (ds ++ s).length := (List.prefix_append ds s).length_le
  have hup := upTo_someDigits hds hlength hs
  cases negative with
  | true =>
    show (upTo (ds ++ s).length (ds ++ s)).map _ = _
    rw [hup]
    rfl
  | false =>
    show (upTo (ds ++ s).length (ds ++ s)).map _ = _
    rw [hup]
    rfl

/-- The reader with a zone takes no year with a sign. -/
theorem readZoned_cons (hc : c.isDigit = false) (s : List Char) : readZoned (c :: s) = none := by
  have hfixed : fixed 4 (c :: s) = none := by
    simp [fixed, hc]
  rw [readZoned, hfixed]
  rfl

end Timestamp

namespace DateTime

open Timestamp

variable {n width nano : ℕ}

/-! ## Padded numbers -/

theorem ofDigits_padded (width n : ℕ) : ofDigits (padded width n) = n := by
  rw [padded, ofDigits_zeros_append, ofDigits_digits]

theorem someDigits_padded (width n : ℕ) : SomeDigits (padded width n) := by
  obtain ⟨hne, hrun⟩ := someDigits_digits n
  refine ⟨?_, run_append.2 ⟨run_zeros _, hrun⟩⟩
  rw [padded, Ne, List.append_eq_nil_iff]
  exact fun h => hne h.2

theorem length_padded (hwidth : 0 < width) (h : n < 10 ^ width) :
    (padded width n).length = width := by
  have hcount : digitCount n ≤ width := (Number.digitCount_le_iff hwidth).2 h
  rw [padded, List.length_append, List.length_replicate, ← digitCount, Nat.sub_add_cancel hcount]

/-- A number that is not too large, with zeros in front. -/
def figures (width n : ℕ) (hwidth : 0 < width) (h : n < 10 ^ width) : Figures width :=
  ⟨padded width n, length_padded hwidth h, (someDigits_padded width n).2⟩

theorem short_padded (h : n < 10 ^ 2) (s : List Char) :
    short (padded 2 n ++ s) = some (n, s) := by
  have hread := (figures 2 n (by decide) h).short_append s
  rwa [Figures.value, figures, ofDigits_padded] at hread

/-! ## Fractions -/

/-- The places that are written of a fraction. -/
def places (nano : ℕ) : List Char :=
  if nano = 0 then []
  else if nano % 1000000 = 0 then padded 3 (nano / 1000000)
  else if nano % 1000 = 0 then padded 6 (nano / 1000)
  else padded 9 nano

theorem run_places (nano : ℕ) : Run Char.isDigit (places nano) := by
  rw [places]
  split_ifs
  · exact .nil
  all_goals exact (someDigits_padded _ _).2

theorem fractionText_of_someDigits {ds : List Char} (h : SomeDigits ds) :
    fractionText ds = '.' :: ds := by
  cases ds with
  | nil => exact absurd rfl h.1
  | cons c ds => rfl

theorem writeFraction_eq (nano : ℕ) : writeFraction nano = fractionText (places nano) := by
  rw [writeFraction, places]
  split_ifs
  · rfl
  all_goals exact (fractionText_of_someDigits (someDigits_padded _ _)).symm

/-- Where the nanoseconds are so many places and zeros, the places alone say them. -/
theorem nanoseconds_padded {k z : ℕ} (hk : 0 < k) (hkz : k + z = 9) (hnano : nano < nanosPerSecond)
    (hz : nano % 10 ^ z = 0) : nanoseconds (padded k (nano / 10 ^ z)) = nano := by
  have hpow : nanosPerSecond = 10 ^ z * 10 ^ k := by
    rw [← pow_add, Nat.add_comm, hkz]
    rfl
  have hlt : nano / 10 ^ z < 10 ^ k := by
    rw [hpow] at hnano
    exact Nat.div_lt_of_lt_mul hnano
  rw [nanoseconds_eq (someDigits_padded _ _).2, ofDigits_padded, length_padded hk hlt, hpow,
    ← Nat.mul_assoc, Nat.mul_div_cancel _ (Nat.pow_pos (by decide)),
    Nat.div_mul_cancel (Nat.dvd_of_mod_eq_zero hz)]

/-- Leaving zeros out at the end loses nothing. -/
theorem nanoseconds_places (h : nano < nanosPerSecond) : nanoseconds (places nano) = nano := by
  rw [places]
  split_ifs with hzero hmilli hmicro
  · exact hzero ▸ rfl
  · exact nanoseconds_padded (z := 6) (by decide) rfl h hmilli
  · exact nanoseconds_padded (z := 3) (by decide) rfl h hmicro
  · have hnano := nanoseconds_padded (k := 9) (z := 0) (by decide) rfl h (Nat.mod_one nano)
    rwa [pow_zero, Nat.div_one] at hnano

/-! ## The parts of the written form -/

variable (t : DateTime)

/-- The whole second of a minute that is written, 60 in a leap second. -/
def wholeSecond : ℕ := t.second % 60 + t.nano / nanosPerSecond

theorem wholeSecond_of_lt (h : t.nano < nanosPerSecond) : t.wholeSecond = t.second % 60 := by
  rw [wholeSecond, Nat.div_eq_of_lt h, Nat.add_zero]

theorem wholeSecond_of_le (h : nanosPerSecond ≤ t.nano) : t.wholeSecond = 60 := by
  have hnano : t.nano / nanosPerSecond = 1 := Nat.div_eq_of_lt_le (by omega) t.nano_lt
  rw [wholeSecond, hnano, t.leap h]

theorem wholeSecond_le : t.wholeSecond ≤ 60 := by
  rcases lt_or_ge t.nano nanosPerSecond with h | h
  · rw [t.wholeSecond_of_lt h]
    omega
  · exact (t.wholeSecond_of_le h).le

/-- The time of day that is written, by its parts. -/
def clock : Clock where
  hour := figures 2 (t.second / 3600) (by decide) (by
    have := t.second_lt
    simp only [secondsPerDay] at this
    omega)
  minute := figures 2 (t.second / 60 % 60) (by decide) (by omega)
  seconds := some
    { whole := figures 2 t.wholeSecond (by decide)
        (lt_of_le_of_lt t.wholeSecond_le (by decide))
      places := places (t.nano % nanosPerSecond)
      places_digits := run_places _ }
  zone := none

theorem second_clock : t.clock.second = t.wholeSecond := ofDigits_padded 2 _

theorem nano_clock : t.clock.nano = t.nano % nanosPerSecond := by
  rw [Clock.nano_eq]
  exact nanoseconds_places (Nat.mod_lt _ (by decide))

/-- The time that is written is the one of the point in time. -/
theorem ofClock?_clock : ofClock? t.date t.clock.hour.value t.clock.minute.value t.clock.second
    t.clock.nano = some t := by
  have hlt := t.second_lt
  have hhour : t.clock.hour.value = t.second / 3600 := ofDigits_padded 2 _
  have hminute : t.clock.minute.value = t.second / 60 % 60 := ofDigits_padded 2 _
  simp only [secondsPerDay] at hlt
  have hhour_lt : t.second / 3600 < 24 := by omega
  have hminute_lt : t.second / 60 % 60 < 60 := by omega
  obtain ⟨t', ht', hdate, hsecond, hnano⟩ := exists_ofClock? t.date hhour_lt hminute_lt
    t.wholeSecond_le (Nat.mod_lt t.nano (show 0 < nanosPerSecond by decide))
  rw [hhour, hminute, second_clock, nano_clock, ht', Option.some.injEq]
  rcases lt_or_ge t.nano nanosPerSecond with h | h
  · rw [t.wholeSecond_of_lt h] at hsecond hnano
    rw [if_neg (by omega), Nat.mod_eq_of_lt h] at hnano
    refine eq_of_instant ?_ hnano
    rw [instant, instant, hdate, hsecond]
    omega
  · -- a leap second is second 59, with a second of nanoseconds more
    have hleap := t.leap h
    have hmod : nanosPerSecond + t.nano % nanosPerSecond = t.nano := by
      have := t.nano_lt
      rw [Nat.mod_eq_sub_mod h, Nat.mod_eq_of_lt (by omega)]
      omega
    rw [t.wholeSecond_of_le h] at hsecond hnano
    rw [if_pos rfl, hmod] at hnano
    refine eq_of_instant ?_ hnano
    rw [instant, instant, hdate, hsecond]
    omega

end DateTime

namespace Date

open DateTime Timestamp

variable (d : Date)

/-- The written form of a day. -/
def write : List Char := writeYear d.year ++ '-' :: padded 2 d.month ++ '-' :: padded 2 d.day

theorem month_lt : d.month < 10 ^ 2 := by
  obtain ⟨-, -, hpos, hle⟩ := d.isDay
  have := month_bounds hpos hle
  omega

theorem day_lt : d.day < 10 ^ 2 := by
  obtain ⟨-, -, -, hle⟩ := d.isDay
  rw [daysInMonth] at hle
  split_ifs at hle <;> omega

theorem run_write : Run (digitOr ['+', '-']) d.write := by
  have hpadded : ∀ width n, Run (digitOr ['+', '-']) (padded width n) :=
    fun width n => run_digitOr (someDigits_padded width n).2
  have hyear : Run (digitOr ['+', '-']) (writeYear d.year) := by
    rw [writeYear]
    split_ifs
    · exact hpadded _ _
    · exact run_cons.2 ⟨rfl, hpadded _ _⟩
    · exact run_cons.2 ⟨rfl, hpadded _ _⟩
  exact run_append.2 ⟨run_append.2 ⟨hyear, run_cons.2 ⟨rfl, hpadded _ _⟩⟩,
    run_cons.2 ⟨rfl, hpadded _ _⟩⟩

theorem readYear_writeYear (year : ℤ) (s : List Char) :
    readYear (writeYear year ++ '-' :: s) = some (year, '-' :: s) := by
  rw [writeYear]
  split
  · next h =>
    have hread := (figures 4 year.toNat (by decide) (by omega)).readYear_append
      ('-' :: s)
    rwa [Figures.value, figures, ofDigits_padded, Int.toNat_of_nonneg h.1] at hread
  · have hread := readYear_signed (decide (year < 0)) (someDigits_padded 4 year.natAbs)
      (s := '-' :: s) (stops_cons.2 rfl)
    rw [ofDigits_padded, signed_natAbs] at hread
    simpa only [decide_eq_true_eq, List.cons_append] using hread

/-- A written day is read as that day. -/
theorem readDate_write (s : List Char) : readDate (d.write ++ s) = some (d, s) := by
  have hcivil : ofCivil? d.year d.month d.day = some d := ofCivil?_eq_some.2 ⟨rfl, rfl, rfl⟩
  simp only [readDate, write, List.append_assoc, List.cons_append, readYear_writeYear, some_bind,
    expect_cons, short_padded d.month_lt, short_padded d.day_lt, hcivil]

/-- The days of years with four digits and no sign are written as in the grammar. -/
theorem exists_dayText (h : 0 ≤ d.year ∧ d.year ≤ 9999) : ∃ w : Written, w.dayText = d.write := by
  let year := figures 4 d.year.toNat (by decide) (by omega)
  let month := figures 2 d.month (by decide) d.month_lt
  let day := figures 2 d.day (by decide) d.day_lt
  refine ⟨⟨year, month, day, none⟩, ?_⟩
  rw [write, writeYear, if_pos h, List.append_assoc]
  rfl

/-- Without a zone, a written day and a time are not for the reader with a zone. -/
theorem readZoned_write (c : Clock) (hseconds : c.seconds ≠ none) :
    readZoned (d.write ++ 'T' :: (c.figures ++ [])) = none := by
  by_cases h : 0 ≤ d.year ∧ d.year ≤ 9999
  · obtain ⟨w, hw⟩ := d.exists_dayText h
    obtain ⟨t, ht⟩ := Option.ne_none_iff_exists'.1 hseconds
    rw [← hw, readZoned_append, ht]
    exact readBehindMinutes_of_not_zone stops_nil rfl
  · have hsign : (if d.year < 0 then '-' else '+').isDigit = false := by
      split <;> rfl
    rw [write, writeYear, if_neg h]
    exact readZoned_cons hsign _

end Date

namespace DateTime

open Timestamp

/-- What is written is a day and a time without a zone. -/
theorem write_eq (t : DateTime) : t.write = t.date.write ++ 'T' :: (t.clock.figures ++ []) := by
  rw [write, writeFraction_eq, List.append_nil]
  simp only [Date.write, List.append_assoc, List.cons_append]
  rfl

/-- The reader of dates and times without a zone reads what is written. -/
theorem readLocalTime_write (t : DateTime) : readLocalTime t.write = some t := by
  rw [write_eq, readLocalTime_of_readDate (t.date.readDate_write _), ofClock?_clock]

/-- **A written point in time is read as that point in time.** -/
theorem written_reads_back (t : DateTime) : Timestamp.read (Value.dateTime t).write = some t := by
  have htrim : trim t.write = t.write := by
    rw [write_eq]
    refine trim_of_run (run_append.2 ⟨run_not_isBlank t.date.run_write (by decide), ?_⟩)
    exact t.clock.run_text
  have hzoned : readZoned t.write = none := by
    rw [write_eq]
    exact t.date.readZoned_write t.clock (Option.some_ne_none _)
  have hzone : splitZone t.write = none := by
    rw [write_eq]
    exact splitZone_of_local t.date.run_write t.clock
  rw [Value.write, read_of_splitZone_none hzoned hzone htrim, t.readLocalTime_write]
  rfl

/-- A leap second of a year with a sign. -/
example : (Timestamp.read "-0044-03-15T23:59:60.250".toList).map DateTime.write =
    some "-0044-03-15T23:59:60.250".toList := by decide +kernel

end DateTime

end RecordFilter.Calendar

import Mathlib
import RecordFilter.Calendar.DateTime

/-!
# The numbers of days

Days are counted through all years (`dayNumber`): the day after a day has the next number and the
day before it the one before (`exists_next?`, `exists_previous?`), over the ends of months and
years. A day is known by its number (`number_injective`), and a point in time by its seconds and
nanoseconds (`eq_of_instant`), so a time so many minutes later is the one with that many seconds
more (`exists_addMinutes?`).
-/

namespace RecordFilter.Calendar

/-! ## Years and months -/

/-- The days between the first of year 0 and the first of a year: 365 for each year, and one for
every leap year among them. -/
def daysBeforeYear (year : ℤ) : ℤ :=
  365 * year + (year + 3) / 4 - (year + 99) / 100 + (year + 399) / 400

/-- The days of a year before the first of a month. -/
def daysBeforeMonth (year : ℤ) (month : ℕ) : ℕ := ∑ m ∈ Finset.range month, daysInMonth year m

/-- The number of a day; the first of year 0 is day 1. -/
def dayNumber (year : ℤ) (month day : ℕ) : ℤ :=
  daysBeforeYear year + daysBeforeMonth year month + day

variable {year : ℤ} {month month' day day' : ℕ}

theorem daysBeforeMonth_succ (year : ℤ) (month : ℕ) :
    daysBeforeMonth year (month + 1) = daysBeforeMonth year month + daysInMonth year month :=
  Finset.sum_range_succ _ _

theorem daysBeforeMonth_one (year : ℤ) : daysBeforeMonth year 1 = 0 := rfl

theorem daysBeforeMonth_mono (h : month ≤ month') :
    daysBeforeMonth year month ≤ daysBeforeMonth year month' :=
  Finset.sum_le_sum_of_subset (Finset.range_mono h)

/-- All months make a year. -/
theorem daysBeforeYear_succ (year : ℤ) :
    daysBeforeYear (year + 1) = daysBeforeYear year + daysBeforeMonth year 13 := by
  have hmonths : daysBeforeMonth year 13 = if isLeapYear year then 366 else 365 := by
    cases hleap : isLeapYear year <;>
      simp [daysBeforeMonth, Finset.sum_range_succ, daysInMonth, hleap]
  rw [hmonths]
  simp only [daysBeforeYear, isLeapYear, Bool.and_eq_true, Bool.or_eq_true, beq_iff_eq,
    bne_iff_ne]
  split <;> omega

theorem daysBeforeYear_mono {year year' : ℤ} (h : year ≤ year') :
    daysBeforeYear year ≤ daysBeforeYear year' := by
  simp only [daysBeforeYear]
  omega

theorem month_bounds (h : 1 ≤ day) (h' : day ≤ daysInMonth year month) :
    1 ≤ month ∧ month ≤ 12 := by
  rw [daysInMonth] at h'
  split_ifs at h' <;> omega

theorem daysInMonth_pos (h : 1 ≤ month) (h' : month ≤ 12) : 1 ≤ daysInMonth year month := by
  rw [daysInMonth]
  split_ifs <;> omega

theorem daysInMonth_twelve (year : ℤ) : daysInMonth year 12 = 31 := rfl

theorem dayNumber_bounds (h : 1 ≤ day) (h' : day ≤ daysInMonth year month) :
    daysBeforeYear year < dayNumber year month day ∧
      dayNumber year month day ≤ daysBeforeYear (year + 1) := by
  have hmonth := month_bounds h h'
  have hsucc := daysBeforeMonth_succ year month
  have hmono : daysBeforeMonth year (month + 1) ≤ daysBeforeMonth year 13 :=
    daysBeforeMonth_mono (by omega)
  have hyear := daysBeforeYear_succ year
  simp only [dayNumber]
  omega

/-- Of intervals that follow each other, a number lies in one only. -/
theorem eq_of_between {α : Type} [LinearOrder α] {f g : α → ℤ} {a b : α} {n : ℤ}
    (hnext : ∀ a b, a < b → g a ≤ f b) (ha : f a < n ∧ n ≤ g a) (hb : f b < n ∧ n ≤ g b) :
    a = b := by
  rcases lt_trichotomy a b with hlt | heq | hlt
  · have := hnext a b hlt
    omega
  · exact heq
  · have := hnext b a hlt
    omega

/-! ## Days -/

namespace Date

variable {d e : Date}

/-- The number of a day. -/
def number (d : Date) : ℤ := dayNumber d.year d.month d.day

theorem ofCivil?_eq_some :
    ofCivil? year month day = some d ↔ d.year = year ∧ d.month = month ∧ d.day = day := by
  rw [ofCivil?]
  constructor
  · intro h
    split at h
    · cases h
      exact ⟨rfl, rfl, rfl⟩
    · cases h
  · rintro ⟨rfl, rfl, rfl⟩
    rw [dif_pos d.isDay]

theorem exists_ofCivil? (h : IsDay year month day) :
    ∃ d, ofCivil? year month day = some d ∧ d.number = dayNumber year month day :=
  ⟨⟨year, month, day, h⟩, dif_pos h, rfl⟩

/-- The day after has the next number. -/
theorem exists_next? (d : Date) (h : d.year < maxYear) :
    ∃ e, d.next? = some e ∧ e.number = d.number + 1 := by
  obtain ⟨hmin, hmax, hpos, hle⟩ := d.isDay
  obtain ⟨hjanuary, hdecember⟩ := month_bounds hpos hle
  rw [number, next?]
  split
  · next hlt =>
    have hday : IsDay d.year d.month (d.day + 1) := ⟨hmin, hmax, by omega, hlt⟩
    obtain ⟨e, he, hnumber⟩ := exists_ofCivil? hday
    refine ⟨e, he, ?_⟩
    rw [hnumber, dayNumber, dayNumber]
    omega
  · next hge =>
    have hday : d.day = daysInMonth d.year d.month := le_antisymm hle (not_lt.1 hge)
    split
    · next hlt =>
      have hfirst : IsDay d.year (d.month + 1) 1 :=
        ⟨hmin, hmax, le_rfl, daysInMonth_pos (by omega) hlt⟩
      obtain ⟨e, he, hnumber⟩ := exists_ofCivil? hfirst
      refine ⟨e, he, ?_⟩
      rw [hnumber, dayNumber, dayNumber, daysBeforeMonth_succ]
      omega
    · next hge =>
      have hmonth : d.month = 12 := le_antisymm hdecember (not_lt.1 hge)
      have hfirst : IsDay (d.year + 1) 1 1 :=
        ⟨by omega, h, le_rfl, daysInMonth_pos le_rfl (by omega)⟩
      obtain ⟨e, he, hnumber⟩ := exists_ofCivil? hfirst
      refine ⟨e, he, ?_⟩
      rw [hmonth] at hday ⊢
      rw [hnumber, dayNumber, dayNumber, daysBeforeYear_succ, daysBeforeMonth_succ d.year 12,
        daysBeforeMonth_one]
      omega

/-- The day before has the number before. -/
theorem exists_previous? (d : Date) (h : minYear < d.year) :
    ∃ e, d.previous? = some e ∧ e.number = d.number - 1 := by
  obtain ⟨hmin, hmax, hpos, hle⟩ := d.isDay
  obtain ⟨hjanuary, hdecember⟩ := month_bounds hpos hle
  rw [number, previous?]
  split
  · next hlt =>
    have hday : IsDay d.year d.month (d.day - 1) :=
      ⟨hmin, hmax, by omega, le_trans (Nat.sub_le _ _) hle⟩
    obtain ⟨e, he, hnumber⟩ := exists_ofCivil? hday
    refine ⟨e, he, ?_⟩
    rw [hnumber, dayNumber, dayNumber]
    omega
  · next hge =>
    have hday : d.day = 1 := le_antisymm (not_lt.1 hge) hpos
    split
    · next hlt =>
      have hlast : IsDay d.year (d.month - 1) (daysInMonth d.year (d.month - 1)) :=
        ⟨hmin, hmax, daysInMonth_pos (by omega) (by omega), le_rfl⟩
      obtain ⟨e, he, hnumber⟩ := exists_ofCivil? hlast
      have hmonth := daysBeforeMonth_succ d.year (d.month - 1)
      rw [Nat.sub_add_cancel hjanuary] at hmonth
      refine ⟨e, he, ?_⟩
      rw [hnumber, dayNumber, dayNumber]
      omega
    · next hge =>
      have hmonth : d.month = 1 := le_antisymm (not_lt.1 hge) hjanuary
      have hlast : IsDay (d.year - 1) 12 31 :=
        ⟨Int.le_sub_one_of_lt h, by omega, by omega, le_rfl⟩
      obtain ⟨e, he, hnumber⟩ := exists_ofCivil? hlast
      have hyear := daysBeforeYear_succ (d.year - 1)
      rw [sub_add_cancel, daysBeforeMonth_succ, daysInMonth_twelve] at hyear
      refine ⟨e, he, ?_⟩
      rw [hnumber, dayNumber, dayNumber, hmonth, daysBeforeMonth_one]
      omega

/-- Days of different numbers are different days. -/
theorem number_injective (h : d.number = e.number) : d = e := by
  obtain ⟨-, -, hpos, hle⟩ := d.isDay
  obtain ⟨-, -, hpos', hle'⟩ := e.isDay
  -- the numbers of different years do not overlap, nor do those of the months of one year
  have hyear : d.year = e.year := by
    refine eq_of_between (f := daysBeforeYear) (g := fun y => daysBeforeYear (y + 1))
      (fun _ _ hlt => daysBeforeYear_mono hlt) (dayNumber_bounds hpos hle) ?_
    rw [← number, h]
    exact dayNumber_bounds hpos' hle'
  rw [number, number, dayNumber, dayNumber, hyear] at h
  rw [hyear] at hle
  have hmonth : d.month = e.month := by
    refine eq_of_between (f := fun m => daysBeforeMonth e.year m)
      (g := fun m => daysBeforeMonth e.year (m + 1)) (n := daysBeforeMonth e.year d.month + d.day)
      (fun _ _ hlt => mod_cast daysBeforeMonth_mono hlt) ?_ ?_
    · rw [daysBeforeMonth_succ]
      omega
    · rw [daysBeforeMonth_succ]
      omega
  have hday : d.day = e.day := by
    rw [hmonth] at h
    omega
  cases d
  cases e
  simp_all

end Date

/-! ## Points in time -/

namespace DateTime

variable {t t' : DateTime}

/-- The seconds of a point in time, counted through all days. -/
def instant (t : DateTime) : ℤ := t.date.number * secondsPerDay + t.second

/-- A point in time is known by its seconds and nanoseconds. -/
theorem eq_of_instant (h : t.instant = t'.instant) (hnano : t.nano = t'.nano) : t = t' := by
  have hlt := t.second_lt
  have hlt' := t'.second_lt
  simp only [instant, secondsPerDay] at h hlt hlt'
  have hdate : t.date = t'.date := Date.number_injective (by omega)
  have hsecond : t.second = t'.second := by
    rw [hdate] at h
    omega
  cases t
  cases t'
  simp_all

theorem exists_ofClock? (date : Date) {hour minute second nano : ℕ} (hhour : hour < 24)
    (hminute : minute < 60) (hsecond : second ≤ 60) (hnano : nano < nanosPerSecond) :
    ∃ t, ofClock? date hour minute second nano = some t ∧ t.date = date ∧
      t.second = hour * 3600 + minute * 60 + min second 59 ∧
      t.nano = if second = 60 then nanosPerSecond + nano else nano :=
  ⟨_, dif_pos ⟨hhour, hminute, hsecond, hnano⟩, rfl, rfl, rfl⟩

theorem addMinutes?_zero (t : DateTime) : t.addMinutes? 0 = some t := by
  have hlt : (t.second : ℤ) < secondsPerDay := mod_cast t.second_lt
  have hsecond : ((t.second : ℤ) % secondsPerDay).toNat = t.second := by
    rw [Int.emod_eq_of_lt (Int.natCast_nonneg _) hlt, Int.toNat_natCast]
  simp only [addMinutes?, mul_zero, add_zero, hlt, if_true, hsecond]
  rw [if_neg (not_lt.2 (Int.natCast_nonneg _))]
  rfl

/-- So many minutes later, within a day and away from the first and the last year. -/
theorem exists_addMinutes? (t : DateTime) (minutes : ℤ) (hmin : minYear < t.date.year)
    (hmax : t.date.year < maxYear) (h : -1440 < minutes) (h' : minutes < 1440) :
    ∃ t', t.addMinutes? minutes = some t' ∧ t'.instant = t.instant + 60 * minutes ∧
      t'.nano = t.nano := by
  have hlt := t.second_lt
  obtain ⟨before, hbefore, hnumber⟩ := t.date.exists_previous? hmin
  obtain ⟨after, hafter, hnumber'⟩ := t.date.exists_next? hmax
  rw [secondsPerDay] at hlt
  rw [addMinutes?]
  -- less than a day reaches the neighbouring days at most
  by_cases hneg : t.second + 60 * minutes < 0
  · rw [if_pos hneg, hbefore]
    refine ⟨_, rfl, ?_, rfl⟩
    simp only [instant, secondsPerDay, hnumber]
    omega
  · rw [if_neg hneg]
    by_cases hday : t.second + 60 * minutes < secondsPerDay
    · rw [if_pos hday]
      refine ⟨_, rfl, ?_, rfl⟩
      simp only [instant, secondsPerDay] at hday ⊢
      omega
    · rw [if_neg hday, hafter]
      refine ⟨_, rfl, ?_, rfl⟩
      simp only [instant, secondsPerDay, hnumber'] at hday ⊢
      omega

end DateTime

end RecordFilter.Calendar

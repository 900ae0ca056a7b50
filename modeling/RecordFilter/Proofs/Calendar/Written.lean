import RecordFilter.Proofs.Calendar.DayNumbers
import RecordFilter.Proofs.Calendar.Fields

/-!
# Written dates

The dates of the filter grammar by their parts (`Written`), with the text that is put together from
them. The grammar's dates are just these texts (`isDate_iff_text`).

What a date says is told from its parts alone: which ones are real (`Written.IsReal`), and the point
in time that a real one names (`Written.Names`). Its parts make that point in time, or none if it is
not real (`Written.moment?_eq_some`).
-/

namespace RecordFilter.Calendar.Timestamp

open RecordFilter.Filter Text

/-! ## Parts and texts -/

/-- A zone: UTC, or hours and minutes before it or behind it. -/
inductive Zone
  | utc
  | offset (behind : Bool) (hours minutes : Figures 2)

/-- The seconds of a time, and the places behind their point, if there are any. -/
structure Seconds where
  whole : Figures 2
  places : List Char
  places_digits : Run Char.isDigit places

/-- A time of day; seconds and zone can be left out. -/
structure Clock where
  hour : Figures 2
  minute : Figures 2
  seconds : Option Seconds
  zone : Option Zone

/-- A date, alone or with a time of day. -/
structure Written where
  year : Figures 4
  month : Figures 2
  day : Figures 2
  clock : Option Clock

def Zone.text : Zone → List Char
  | utc => ['Z']
  | offset behind hours minutes =>
    (if behind then '-' else '+') :: (hours.text ++ ':' :: minutes.text)

def Seconds.text (s : Seconds) : List Char := ':' :: (s.whole.text ++ fractionText s.places)

namespace Clock

/-- The text of a time up to its zone, without the letter it begins with. -/
def figures (c : Clock) : List Char :=
  c.hour.text ++ ':' :: (c.minute.text ++ c.seconds.elim [] Seconds.text)

def text (c : Clock) : List Char := 'T' :: (c.figures ++ c.zone.elim [] Zone.text)

end Clock

namespace Written

/-- The text of the year, the month and the day. -/
def dayText (w : Written) : List Char :=
  w.year.text ++ '-' :: (w.month.text ++ '-' :: w.day.text)

def text (w : Written) : List Char := w.dayText ++ w.clock.elim [] Clock.text

end Written

/-! ## The grammar -/

section Grammar

variable {s : List Char}

/-- A part that can be left out. -/
theorem optional_iff {α : Type} {P : List Char → Prop} {f : α → List Char}
    (h : ∀ {s}, P s ↔ ∃ a, f a = s) : (s = [] ∨ P s) ↔ ∃ o : Option α, o.elim [] f = s := by
  constructor
  · rintro (rfl | hs)
    · exact ⟨none, rfl⟩
    · obtain ⟨a, rfl⟩ := h.1 hs
      exact ⟨some a, rfl⟩
  · rintro ⟨_ | a, rfl⟩
    · exact .inl rfl
    · exact .inr (h.2 ⟨a, rfl⟩)

theorem isZone_iff_text : IsZone s ↔ ∃ z : Zone, z.text = s := by
  constructor
  · rintro (rfl | ⟨sign, hours, minutes, rfl, hsign, hh, hm⟩)
    · exact ⟨.utc, rfl⟩
    · rcases hsign with rfl | rfl
      · exact ⟨.offset false ⟨hours, hh⟩ ⟨minutes, hm⟩, rfl⟩
      · exact ⟨.offset true ⟨hours, hh⟩ ⟨minutes, hm⟩, rfl⟩
  · rintro ⟨_ | ⟨behind, hours, minutes⟩, rfl⟩
    · exact .inl rfl
    · refine .inr ⟨_, _, _, rfl, ?_, hours.digits, minutes.digits⟩
      cases behind
      · exact .inl rfl
      · exact .inr rfl

theorem isSeconds_iff_text : IsSeconds s ↔ ∃ t : Seconds, t.text = s := by
  constructor
  · rintro ⟨whole, fraction, rfl, hw, rfl | ⟨places, rfl, hne, hp⟩⟩
    · exact ⟨⟨⟨whole, hw⟩, [], .nil⟩, rfl⟩
    · refine ⟨⟨⟨whole, hw⟩, places, hp⟩, ?_⟩
      cases places with
      | nil => exact absurd rfl hne
      | cons c places => rfl
  · rintro ⟨⟨whole, places, hp⟩, rfl⟩
    refine ⟨whole.text, fractionText places, rfl, whole.digits, ?_⟩
    cases places with
    | nil => exact .inl rfl
    | cons c places => exact .inr ⟨c :: places, rfl, List.cons_ne_nil c places, hp⟩

theorem isTime_iff_text : IsTime s ↔ ∃ c : Clock, c.text = s := by
  constructor
  · rintro ⟨hour, minute, seconds, zone, rfl, hh, hm, hseconds, hzone⟩
    obtain ⟨t, rfl⟩ := (optional_iff isSeconds_iff_text).1 hseconds
    obtain ⟨z, rfl⟩ := (optional_iff isZone_iff_text).1 hzone
    refine ⟨⟨⟨hour, hh⟩, ⟨minute, hm⟩, t, z⟩, ?_⟩
    simp only [Clock.text, Clock.figures, List.append_assoc, List.cons_append]
  · rintro ⟨⟨hour, minute, t, z⟩, rfl⟩
    refine ⟨hour.text, minute.text, t.elim [] Seconds.text, z.elim [] Zone.text, ?_, hour.digits,
      minute.digits, (optional_iff isSeconds_iff_text).2 ⟨t, rfl⟩,
      (optional_iff isZone_iff_text).2 ⟨z, rfl⟩⟩
    simp only [Clock.text, Clock.figures, List.append_assoc, List.cons_append]

/-- The dates of the grammar are the texts that are put together from parts. -/
theorem isDate_iff_text : IsDate s ↔ ∃ w : Written, w.text = s := by
  constructor
  · rintro ⟨year, month, day, time, rfl, hy, hm, hd, htime⟩
    obtain ⟨c, rfl⟩ := (optional_iff isTime_iff_text).1 htime
    refine ⟨⟨⟨year, hy⟩, ⟨month, hm⟩, ⟨day, hd⟩, c⟩, ?_⟩
    simp only [Written.text, Written.dayText, List.append_assoc, List.cons_append]
  · rintro ⟨⟨year, month, day, c⟩, rfl⟩
    refine ⟨year.text, month.text, day.text, c.elim [] Clock.text, ?_, year.digits, month.digits,
      day.digits, (optional_iff isTime_iff_text).2 ⟨c, rfl⟩⟩
    simp only [Written.text, Written.dayText, List.append_assoc, List.cons_append]

end Grammar

/-! ## What a date says -/

theorem Figures.value_lt {n : ℕ} (f : Figures n) : f.value < 10 ^ n := by
  obtain ⟨hlen, hrun⟩ := f.digits
  calc f.value
    _ < 10 ^ f.text.length := ofDigits_lt hrun
    _ = 10 ^ n := by rw [hlen]

namespace Zone

/-- The offset is less than a day. -/
def IsReal : Zone → Prop
  | utc => True
  | offset _ hours minutes => hours.value ≤ 23 ∧ minutes.value ≤ 59

instance : DecidablePred IsReal
  | utc => inferInstanceAs (Decidable True)
  | offset _ hours minutes => inferInstanceAs (Decidable (hours.value ≤ 23 ∧ minutes.value ≤ 59))

/-- The minutes that a local time is ahead of UTC. -/
def ahead : Zone → ℤ
  | utc => 0
  | offset behind hours minutes => signed behind (hours.value * 60 + minutes.value)

theorem ahead_bounds {z : Zone} (h : z.IsReal) : -1440 < z.ahead ∧ z.ahead < 1440 := by
  cases z with
  | utc => exact ⟨by decide, by decide⟩
  | offset behind hours minutes =>
    obtain ⟨hhours, hminutes⟩ := h
    cases behind <;> simp only [ahead, signed, Bool.false_eq_true, if_false, if_true] <;> omega

end Zone

namespace Clock

variable {c : Clock} {date : Date} {t : DateTime}

/-- The second, zero if it is left out. -/
def second (c : Clock) : ℕ := c.seconds.elim 0 fun s => s.whole.value

/-- The nanoseconds of the fraction, rounded down. -/
def nano (c : Clock) : ℕ :=
  c.seconds.elim 0 fun s => ofDigits s.places * nanosPerSecond / 10 ^ s.places.length

/-- The minutes that the time is ahead of UTC; without a zone it is in UTC. -/
def ahead (c : Clock) : ℤ := c.zone.elim 0 Zone.ahead

/-- A time that there is, leap seconds included. -/
def IsReal (c : Clock) : Prop :=
  c.hour.value ≤ 23 ∧ c.minute.value ≤ 59 ∧ c.second ≤ 60 ∧ ∀ z ∈ c.zone, z.IsReal

/-- The seconds in UTC since the local day began. A leap second counts as the one before it. -/
def instant (c : Clock) : ℤ :=
  c.hour.value * 3600 + c.minute.value * 60 + min c.second 59 - 60 * c.ahead

/-- The nanoseconds since that second began. -/
def nanos (c : Clock) : ℕ := if c.second = 60 then nanosPerSecond + c.nano else c.nano

theorem nano_eq (c : Clock) : c.nano = c.seconds.elim 0 fun s => nanoseconds s.places := by
  rcases hs : c.seconds with _ | s
  · rw [nano, hs]
    rfl
  · rw [nano, hs, Option.elim_some, Option.elim_some, nanoseconds_eq s.places_digits]

theorem nano_lt (c : Clock) : c.nano < nanosPerSecond := by
  rw [nano_eq]
  rcases c.seconds with _ | s
  · decide
  · exact nanoseconds_lt s.places_digits

theorem ahead_bounds (h : c.IsReal) : -1440 < c.ahead ∧ c.ahead < 1440 := by
  rw [ahead]
  rcases hz : c.zone with _ | z
  · exact ⟨by decide, by decide⟩
  · exact Zone.ahead_bounds (h.2.2.2 z hz)

/-- The point in time of a day that a time names, by the calendar's own operations. -/
def moment? (c : Clock) (date : Date) : Option DateTime :=
  if ∀ z ∈ c.zone, z.IsReal then
    (DateTime.ofClock? date c.hour.value c.minute.value c.second c.nano).bind
      fun t => t.addMinutes? (-c.ahead)
  else none

/-- A real time names a point in time of every day, away from the first and the last year. -/
theorem exists_moment? (h : c.IsReal) (hmin : minYear < date.year) (hmax : date.year < maxYear) :
    ∃ t, c.moment? date = some t ∧
      t.instant = date.number * secondsPerDay + c.instant ∧ t.nano = c.nanos := by
  obtain ⟨hhour, hminute, hsecond, hzone⟩ := h
  obtain ⟨hlower, hupper⟩ := ahead_bounds ⟨hhour, hminute, hsecond, hzone⟩
  have hhour : c.hour.value < 24 := by omega
  have hminute : c.minute.value < 60 := by omega
  obtain ⟨start, hstart, rfl, hstartsecond, hstartnano⟩ :=
    DateTime.exists_ofClock? date hhour hminute hsecond c.nano_lt
  obtain ⟨t, ht, hinstant, hnano⟩ :=
    start.exists_addMinutes? (-c.ahead) hmin hmax (by omega) (by omega)
  rw [moment?, if_pos hzone, hstart]
  refine ⟨t, ht, ?_, hnano.trans hstartnano⟩
  rw [hinstant, DateTime.instant, instant, hstartsecond]
  push_cast
  ring

theorem isReal_of_moment? (h : c.moment? date = some t) : c.IsReal := by
  rw [moment?] at h
  split at h
  · next hzone =>
    rw [DateTime.ofClock?] at h
    split at h
    · next hclock =>
      obtain ⟨hhour, hminute, hsecond, -⟩ := hclock
      exact ⟨by omega, by omega, hsecond, hzone⟩
    · cases h
  · cases h

end Clock

namespace Written

variable {w : Written} {t t' : DateTime}

/-- The day is one of the calendar, and so is the time. -/
def IsReal (w : Written) : Prop :=
  1 ≤ w.day.value ∧ w.day.value ≤ daysInMonth w.year.value w.month.value ∧
    ∀ c ∈ w.clock, c.IsReal

/-- The point in time that a date says: its seconds through all days, and the nanoseconds. A date
alone says the midnight it begins with. -/
def Names (w : Written) (t : DateTime) : Prop :=
  t.instant = dayNumber w.year.value w.month.value w.day.value * secondsPerDay +
      w.clock.elim 0 Clock.instant ∧
    t.nano = w.clock.elim 0 Clock.nanos

theorem Names.eq (h : w.Names t) (h' : w.Names t') : t = t' :=
  DateTime.eq_of_instant (h.1.trans h'.1.symm) (h.2.trans h'.2.symm)

/-- The point in time of a date, by the calendar's own operations. -/
def moment? (w : Written) : Option DateTime :=
  (Date.ofCivil? w.year.value w.month.value w.day.value).bind fun date =>
    w.clock.elim (some (.midnight date)) fun c => c.moment? date

theorem exists_moment? (h : w.IsReal) : ∃ t, w.moment? = some t ∧ w.Names t := by
  obtain ⟨hpos, hle, hclock⟩ := h
  -- years of four digits are far from the first and the last one of the calendar
  have hyear : w.year.value < 10000 := w.year.value_lt
  have hday : IsDay w.year.value w.month.value w.day.value := by
    refine ⟨?_, ?_, hpos, hle⟩
    · simp only [minYear]
      omega
    · simp only [maxYear]
      omega
  obtain ⟨date, hdate, hnumber⟩ := Date.exists_ofCivil? hday
  obtain ⟨hdateyear, -⟩ := Date.ofCivil?_eq_some.1 hdate
  rw [moment?, hdate, Option.bind_some]
  rcases hc : w.clock with _ | c
  · refine ⟨_, rfl, ?_, ?_⟩
    · rw [hc, DateTime.instant, ← hnumber]
      rfl
    · rw [hc]
      rfl
  · have hmin : minYear < date.year := by
      rw [hdateyear, minYear]
      omega
    have hmax : date.year < maxYear := by
      rw [hdateyear, maxYear]
      omega
    obtain ⟨t, ht, hinstant, hnano⟩ := Clock.exists_moment? (hclock c hc) hmin hmax
    refine ⟨t, ht, ?_, ?_⟩
    · rw [hc, hinstant, hnumber]
      rfl
    · rw [hc, hnano]
      rfl

theorem isReal_of_moment? (h : w.moment? = some t) : w.IsReal := by
  obtain ⟨date, hdate, hmoment⟩ := Option.bind_eq_some_iff.1 h
  obtain ⟨hyear, hmonth, hday⟩ := Date.ofCivil?_eq_some.1 hdate
  obtain ⟨-, -, hpos, hle⟩ := date.isDay
  rw [hday] at hpos
  rw [hyear, hmonth, hday] at hle
  refine ⟨hpos, hle, ?_⟩
  intro c hc
  rw [Option.mem_def.1 hc] at hmoment
  exact Clock.isReal_of_moment? hmoment

/-- A date makes a point in time exactly if it is real, and then the one that it says. -/
theorem moment?_eq_some : w.moment? = some t ↔ w.IsReal ∧ w.Names t := by
  constructor
  · intro h
    have hreal := isReal_of_moment? h
    obtain ⟨t', ht', hnames⟩ := exists_moment? hreal
    cases h.symm.trans ht'
    exact ⟨hreal, hnames⟩
  · rintro ⟨hreal, hnames⟩
    obtain ⟨t', ht', hnames'⟩ := exists_moment? hreal
    rw [ht', hnames.eq hnames']

end Written

end RecordFilter.Calendar.Timestamp

/-!
# Dates

Days of the proleptic Gregorian calendar: the rules of that calendar are taken to hold for all
years, and the year before year 1 is year 0. Years reach from `minYear` to `maxYear`; the day after
the last one and the day before the first one are not there.
-/

namespace RecordFilter.Calendar

/-- A year with a 29th of February. -/
def isLeapYear (year : Int) : Bool :=
  year % 4 == 0 && (year % 100 != 0 || year % 400 == 0)

/-- The number of days of a month; there is none outside 1 to 12. -/
def daysInMonth (year : Int) (month : Nat) : Nat :=
  if month = 2 then if isLeapYear year then 29 else 28
  else if month = 4 ∨ month = 6 ∨ month = 9 ∨ month = 11 then 30
  else if 1 ≤ month ∧ month ≤ 12 then 31
  else 0

/-- The first year. -/
def minYear : Int := -262143

/-- The last year. -/
def maxYear : Int := 262142

/-- A year, month and day that name a day of the calendar. -/
def IsDay (year : Int) (month day : Nat) : Prop :=
  minYear ≤ year ∧ year ≤ maxYear ∧ 1 ≤ day ∧ day ≤ daysInMonth year month

instance (year : Int) (month day : Nat) : Decidable (IsDay year month day) :=
  inferInstanceAs (Decidable (_ ∧ _ ∧ _ ∧ _))

/-- A day of the calendar. -/
structure Date where
  year : Int
  month : Nat
  day : Nat
  isDay : IsDay year month day
  deriving DecidableEq

namespace Date

/-- The day with this year, month and day, if the calendar has it. -/
def ofCivil? (year : Int) (month day : Nat) : Option Date :=
  if h : IsDay year month day then some ⟨year, month, day, h⟩ else none

/-- The day after. -/
def next? (d : Date) : Option Date :=
  if d.day < daysInMonth d.year d.month then ofCivil? d.year d.month (d.day + 1)
  else if d.month < 12 then ofCivil? d.year (d.month + 1) 1
  else ofCivil? (d.year + 1) 1 1

/-- The day before. -/
def previous? (d : Date) : Option Date :=
  if 1 < d.day then ofCivil? d.year d.month (d.day - 1)
  else if 1 < d.month then ofCivil? d.year (d.month - 1) (daysInMonth d.year (d.month - 1))
  else ofCivil? (d.year - 1) 12 31

/-- The order of days in time. -/
def compare (a b : Date) : Ordering :=
  (compareOfLessAndEq a.year b.year).then
    ((compareOfLessAndEq a.month b.month).then (compareOfLessAndEq a.day b.day))

end Date

end RecordFilter.Calendar

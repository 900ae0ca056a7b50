import RecordFilter.Calendar.Date
import RecordFilter.Text.Digits

/-!
# Points in time

A day with a time of day in nanoseconds, without a time zone. A leap second is the sixtieth second
of a minute: it is kept as second 59 with a whole second of nanoseconds more, so it lies behind
every other moment of its minute and before the next minute.
-/

namespace RecordFilter.Calendar

open Text

/-- The nanoseconds of a second. -/
def nanosPerSecond : Nat := 1000000000

/-- The seconds of a day without leap seconds. -/
def secondsPerDay : Nat := 86400

/-- A day, a second of that day, and the nanoseconds since that second began; more than a whole
second of them only in the last second of a minute. -/
structure DateTime where
  date : Date
  second : Nat
  nano : Nat
  second_lt : second < secondsPerDay
  nano_lt : nano < 2 * nanosPerSecond
  leap : nanosPerSecond ≤ nano → second % 60 = 59
  deriving DecidableEq

namespace DateTime

/-- The time of day; second 60 stands for a leap second. -/
def ofClock? (date : Date) (hour minute second nano : Nat) : Option DateTime :=
  let whole := min second 59
  let total := hour * 3600 + minute * 60 + whole
  let nanos := if second = 60 then nanosPerSecond + nano else nano
  if h : hour < 24 ∧ minute < 60 ∧ second ≤ 60 ∧ nano < nanosPerSecond then
    some { date, second := total, nano := nanos
           second_lt := by simp only [total, whole, secondsPerDay]; omega
           nano_lt := by simp only [nanos]; split <;> omega
           leap := by simp only [nanos, total, whole]; split <;> omega }
  else none

/-- The start of a day. -/
def midnight (date : Date) : DateTime :=
  { date, second := 0, nano := 0, second_lt := by decide, nano_lt := by decide
    leap := fun h => absurd h (by decide) }

/-- The time so many minutes later, or earlier for a negative number; less than a day. -/
def addMinutes? (t : DateTime) (minutes : Int) : Option DateTime :=
  let total : Int := t.second + 60 * minutes
  let date? :=
    if total < 0 then t.date.previous?
    else if total < secondsPerDay then some t.date
    else t.date.next?
  date?.map fun date =>
    { t with
      date, second := (total % secondsPerDay).toNat
      second_lt := by
        have := Int.emod_lt_of_pos total (show (0 : Int) < secondsPerDay by decide)
        have := Int.emod_nonneg total (show (secondsPerDay : Int) ≠ 0 by decide)
        omega
      leap := by
        intro h
        have := t.leap h
        simp only [total, secondsPerDay]
        omega }

/-- The order in time. -/
def compare (a b : DateTime) : Ordering :=
  (a.date.compare b.date).then
    ((compareOfLessAndEq a.second b.second).then (compareOfLessAndEq a.nano b.nano))

/-! ## Writing -/

/-- A number with zeros in front, at least `width` characters long. -/
def padded (width n : Nat) : List Char :=
  List.replicate (width - digitCount n) '0' ++ digits n

/-- A year: four digits, and a sign before years outside 0 to 9999. -/
def writeYear (year : Int) : List Char :=
  if 0 ≤ year ∧ year ≤ 9999 then padded 4 year.toNat
  else (if year < 0 then '-' else '+') :: padded 4 year.natAbs

/-- A fraction of a second in the fewest of 0, 3, 6 or 9 places that are exact. -/
def writeFraction (nano : Nat) : List Char :=
  if nano = 0 then []
  else if nano % 1000000 = 0 then '.' :: padded 3 (nano / 1000000)
  else if nano % 1000 = 0 then '.' :: padded 6 (nano / 1000)
  else '.' :: padded 9 nano

/-- The written form, such as `1973-08-19T23:59:59.250`; a leap second is second 60. -/
def write (t : DateTime) : List Char :=
  let leaps := t.nano / nanosPerSecond
  writeYear t.date.year ++ '-' :: padded 2 t.date.month ++ '-' :: padded 2 t.date.day ++
    'T' :: padded 2 (t.second / 3600) ++ ':' :: padded 2 (t.second / 60 % 60) ++
    ':' :: padded 2 (t.second % 60 + leaps) ++ writeFraction (t.nano % nanosPerSecond)

end DateTime

end RecordFilter.Calendar

import RecordFilter.Calendar.DateTime
import RecordFilter.Text.Blank

/-!
# Timestamps

Reading of ISO 8601 dates and times. Three shapes are accepted, blanks around them aside.

* The internet profile of ISO 8601: date, time with seconds, and a zone, every field with all its
  digits. The result is the same moment in UTC.
* The same without the seconds, after a `T`. A text with a zone behind its `T` is read as one of
  these two shapes or not at all.
* A date, with or without a time, and no zone; here fields may be short and a year may have a sign.
-/

namespace RecordFilter.Calendar

open Text

namespace Timestamp

/-! ## Fields -/

/-- A given character. -/
def expect (c : Char) : List Char → Option (List Char)
  | d :: s => if d = c then some s else none
  | [] => none

/-- A number of exactly `width` digits. -/
def fixed (width : Nat) (s : List Char) : Option (Nat × List Char) :=
  let ds := s.take width
  if ds.length = width && ds.all Char.isDigit then some (ofDigits ds, s.drop width) else none

/-- A number of at least one and at most `width` digits, as many as there are. -/
def upTo (width : Nat) (s : List Char) : Option (Nat × List Char) :=
  let ds := (s.take width).takeWhile Char.isDigit
  if ds.isEmpty then none else some (ofDigits ds, s.drop ds.length)

/-- The nanoseconds of the digits behind the point of a second, of which nine count. -/
def nanoseconds (ds : List Char) : Nat :=
  ofDigits ((ds ++ List.replicate 9 '0').take 9)

/-- An optional fraction of a second: a point and at least one digit. -/
def fraction : List Char → Option (Nat × List Char)
  | '.' :: s =>
    let (ds, rest) := spanDigits s
    if ds.isEmpty then none else some (nanoseconds ds, rest)
  | s => some (0, s)

/-! ## With a zone -/

/-- A zone: `Z`, or hours and minutes ahead of UTC with a sign, less than a day. The answer is in
minutes. -/
def zone : List Char → Option (Int × List Char)
  | [] => none
  | c :: s =>
    if c = 'Z' ∨ c = 'z' then some (0, s)
    else if c = '+' ∨ c = '-' ∨ c = '−' then do
      let (hours, s) ← fixed 2 s
      let s ← expect ':' s
      let (minutes, s) ← fixed 2 s
      if hours < 24 ∧ minutes < 60 then
        some (signed (c != '+') (hours * 60 + minutes), s)
      else none
    else none

/-- A moment of the internet profile, in UTC. -/
def readZoned (s : List Char) : Option DateTime := do
  let (year, s) ← fixed 4 s
  let s ← expect '-' s
  let (month, s) ← fixed 2 s
  let s ← expect '-' s
  let (day, s) ← fixed 2 s
  let s ← expect 'T' s <|> expect 't' s <|> expect ' ' s
  let (hour, s) ← fixed 2 s
  let s ← expect ':' s
  let (minute, s) ← fixed 2 s
  let s ← expect ':' s
  let (second, s) ← fixed 2 s
  let (nano, s) ← fraction s
  let (offset, s) ← zone s
  if s.isEmpty then
    let date ← Date.ofCivil? year month day
    let time ← DateTime.ofClock? date hour minute second nano
    time.addMinutes? (-offset)
  else none

/-! ## Without a zone -/

/-- A field of one or two digits, after blanks. -/
def short (s : List Char) : Option (Nat × List Char) := upTo 2 (skipBlanks s)

/-- A year, after blanks: up to four digits, or any number of them after a sign. -/
def readYear (s : List Char) : Option (Int × List Char) :=
  match skipBlanks s with
  | '-' :: s => (upTo s.length s).map fun (n, s) => (-(n : Int), s)
  | '+' :: s => (upTo s.length s).map fun (n, s) => ((n : Int), s)
  | s => (upTo 4 s).map fun (n, s) => ((n : Int), s)

/-- Year, month and day. -/
def readDate (s : List Char) : Option (Date × List Char) := do
  let (year, s) ← readYear s
  let s ← expect '-' s
  let (month, s) ← short s
  let s ← expect '-' s
  let (day, s) ← short s
  let date ← Date.ofCivil? year month day
  some (date, s)

/-- The seconds of a time and their fraction, if it has any. -/
def readSecond (s : List Char) : Option (Nat × Nat × List Char) :=
  if s.isEmpty then some (0, 0, s)
  else do
    let s ← expect ':' s
    let (second, s) ← short s
    let (nano, s) ← fraction s
    some (second, nano, s)

/-- A date and a time with or without seconds. -/
def readLocalTime (s : List Char) : Option DateTime := do
  let (date, s) ← readDate s
  let s ← expect 'T' s
  let (hour, s) ← short s
  let s ← expect ':' s
  let (minute, s) ← short s
  let (second, nano, s) ← readSecond s
  if s.isEmpty then DateTime.ofClock? date hour minute second nano else none

/-- A date alone, which is its midnight. -/
def readLocalDate (s : List Char) : Option DateTime := do
  let (date, s) ← readDate s
  if s.isEmpty then some (.midnight date) else none

/-! ## All shapes -/

/-- The text before the last plus or minus, and the text from there on. -/
def splitLastSign (s : List Char) : Option (List Char × List Char) :=
  match splitWhile (fun c => c != '+' && c != '-') s.reverse with
  | (tail, sign :: front) => some (front.reverse, sign :: tail.reverse)
  | (_, []) => none

/-- The text before a zone and the zone, for a text that has one behind its first `T`: a final
`Z`, or else the last plus or minus and all that follows it. -/
def splitZone (s : List Char) : Option (List Char × List Char) :=
  match splitWhile (· != 'T') s with
  | (_, []) => none
  | (date, time) =>
    if s.getLast? = some 'Z' then some (s.dropLast, ['Z'])
    else (splitLastSign time).map fun (clock, zone) => (date ++ clock, zone)

/-- A timestamp of any of the three shapes. -/
def read (s : List Char) : Option DateTime :=
  let s := trim s
  match readZoned s with
  | some t => some t
  | none =>
    match splitZone s with
    | some (front, zone) => readZoned (front ++ ":00".toList ++ zone)
    | none => readLocalTime s <|> readLocalDate s

end Timestamp

end RecordFilter.Calendar

import RecordFilter.Proofs.Calendar.Splitting

/-!
# Reading written dates

Every date of the grammar is read as the point in time that its parts make (`read_text`), whichever
reader gets hold of it:

* a time with seconds and a zone is read by the reader with a zone;
* a time with a zone and no seconds is read again with seconds put in, for which the zone has to be
  found from the end (`splitZone_of_zone`);
* what has no zone is left to the readers without one (`splitZone_of_local`, `splitZone_of_day`).

Where the reader that a date is meant for refuses it, so do the others. A date of the grammar is
therefore read exactly if it is real, as the point in time it says.
-/

namespace RecordFilter.Calendar.Timestamp

open RecordFilter.Filter Text

variable {w : Written} {c : Clock} {z : Zone} {t : Seconds} {s : List Char}

/-! ## The reader with a zone -/

/-- A zone is neither more of the seconds nor of their fraction. -/
theorem Zone.stops (z : Zone) {p : Char → Bool} (hz : p 'Z' = false) (hplus : p '+' = false)
    (hminus : p '-' = false) : Stops p z.text := by
  rcases z with _ | ⟨_ | _, hours, minutes⟩
  · exact stops_cons.2 hz
  · exact stops_cons.2 hplus
  · exact stops_cons.2 hminus

theorem zone_text (z : Zone) :
    zone z.text = if z.IsReal then some (z.ahead, []) else none := by
  cases z with
  | utc => rfl
  | offset behind hours minutes =>
    have hminutes := minutes.fixed_append []
    rw [List.append_nil] at hminutes
    have hreal : (hours.value < 24 ∧ minutes.value < 60) ↔
        (Zone.offset behind hours minutes).IsReal := by
      simp only [Zone.IsReal]
      omega
    cases behind <;>
      simp [zone, Zone.text, Zone.ahead, hours.fixed_append, expect_cons, hminutes, hreal]

/-- What the reader with a zone makes of the text behind the minutes. -/
def readBehindMinutes (w : Written) (c : Clock) (s : List Char) : Option DateTime := do
  let s ← expect ':' s
  let (second, s) ← fixed 2 s
  let (nano, s) ← fraction s
  let (offset, s) ← zone s
  if s.isEmpty then
    let date ← Date.ofCivil? w.year.value w.month.value w.day.value
    let time ← DateTime.ofClock? date c.hour.value c.minute.value second nano
    time.addMinutes? (-offset)
  else none

theorem readZoned_append (w : Written) (c : Clock) (s : List Char) :
    readZoned (w.dayText ++ 'T' :: (c.figures ++ s)) =
      readBehindMinutes w c (c.seconds.elim [] Seconds.text ++ s) := by
  simp only [readZoned, Written.dayText, Clock.figures, List.append_assoc, List.cons_append,
    Figures.fixed_append, expect_cons, some_bind, Option.orElse_eq_orElse, Option.orElse_eq_or,
    Option.some_or]
  rfl

theorem readBehindMinutes_of_stops (hs : Stops (· == ':') s) : readBehindMinutes w c s = none := by
  cases s with
  | nil => rfl
  | cons d s =>
    have hd : (d == ':') = false := hs d rfl
    rw [readBehindMinutes, expect_cons_of_ne (beq_eq_false_iff_ne.1 hd)]
    rfl

/-- Seconds are read to their end, so what follows them has to be a zone. -/
theorem readBehindMinutes_seconds (hs : Stops (fun c => c == '.' || c.isDigit) s) :
    readBehindMinutes w c (t.text ++ s) = (zone s).bind fun (offset, s) =>
      if s.isEmpty then
        (Date.ofCivil? w.year.value w.month.value w.day.value).bind fun date =>
          (DateTime.ofClock? date c.hour.value c.minute.value t.whole.value
            (nanoseconds t.places)).bind fun time => time.addMinutes? (-offset)
      else none := by
  simp only [readBehindMinutes, Seconds.text, List.cons_append, List.append_assoc, expect_cons,
    Figures.fixed_append, fraction_append t.places_digits hs, some_bind]
  rfl

theorem readBehindMinutes_of_not_zone (hs : Stops (fun c => c == '.' || c.isDigit) s)
    (hzone : zone s = none) : readBehindMinutes w c (t.text ++ s) = none := by
  rw [readBehindMinutes_seconds hs, hzone]
  rfl

/-- Seconds and a zone are read as the point in time that they make. -/
theorem readBehindMinutes_zone (hclock : w.clock = some c) (hz : c.zone = some z)
    (hsecond : c.second = t.whole.value) (hnano : c.nano = nanoseconds t.places) :
    readBehindMinutes w c (t.text ++ z.text) = w.moment? := by
  have hahead : c.ahead = z.ahead := by rw [Clock.ahead, hz, Option.elim_some]
  have hreal : (∀ z ∈ c.zone, z.IsReal) ↔ z.IsReal := by
    rw [hz]
    simp
  rw [readBehindMinutes_seconds (z.stops rfl rfl rfl), zone_text, Written.moment?, hclock]
  simp only [Option.elim_some, Clock.moment?, hreal, hahead, hsecond, hnano]
  -- the reader looks at the zone before it looks at the day
  by_cases h : z.IsReal
  · simp only [if_pos h, Option.bind_some, List.isEmpty_nil, if_true]
  · simp only [if_neg h, Option.bind_none, Option.bind_fun_none]

/-! ## The readers without a zone -/

theorem readDate_append (w : Written) (s : List Char) :
    readDate (w.dayText ++ s) =
      (Date.ofCivil? w.year.value w.month.value w.day.value).map fun date => (date, s) := by
  simp only [readDate, Written.dayText, List.append_assoc, List.cons_append,
    Figures.readYear_append, Figures.short_append, expect_cons, some_bind]
  cases Date.ofCivil? w.year.value w.month.value w.day.value <;> rfl

theorem readSecond_text (c : Clock) :
    readSecond (c.seconds.elim [] Seconds.text ++ []) = some (c.second, c.nano, []) := by
  rw [Clock.nano_eq, Clock.second]
  rcases c.seconds with _ | t
  · rfl
  · have hfraction := fraction_append t.places_digits stops_nil
    simp only [Option.elim_some, Seconds.text, List.cons_append, List.append_assoc, readSecond,
      List.isEmpty_cons, Bool.false_eq_true, if_false, expect_cons, Figures.short_append,
      hfraction, Option.bind_eq_bind, Option.bind_some]

/-- A day and a time behind it are read as the point in time of the two. -/
theorem readLocalTime_of_readDate {date : Date}
    (h : readDate s = some (date, 'T' :: (c.figures ++ []))) :
    readLocalTime s = DateTime.ofClock? date c.hour.value c.minute.value c.second c.nano := by
  simp only [readLocalTime, h, some_bind, expect_cons, Clock.figures, List.append_assoc,
    List.cons_append, Figures.short_append, readSecond_text, List.isEmpty_nil, if_true]

/-- A local time is read as its point in time in UTC. -/
theorem readLocalTime_text (hclock : w.clock = some c) (hz : c.zone = none) :
    readLocalTime (w.dayText ++ 'T' :: (c.figures ++ [])) = w.moment? := by
  have hahead : c.ahead = 0 := by rw [Clock.ahead, hz, Option.elim_none]
  have hreal : ∀ z ∈ c.zone, z.IsReal := by
    intro z hmem
    rw [hz] at hmem
    cases hmem
  have hdate := readDate_append w ('T' :: (c.figures ++ []))
  rw [Written.moment?, hclock]
  cases hcivil : Date.ofCivil? w.year.value w.month.value w.day.value with
  | none =>
    rw [hcivil] at hdate
    rw [readLocalTime, hdate]
    rfl
  | some date =>
    rw [hcivil] at hdate
    simp only [readLocalTime_of_readDate hdate, Option.bind_some, Option.elim_some, Clock.moment?,
      if_pos hreal, hahead, neg_zero, DateTime.addMinutes?_zero, Option.bind_fun_some]

theorem readLocalDate_cons {d : Char} : readLocalDate (w.dayText ++ d :: s) = none := by
  rw [readLocalDate, readDate_append]
  cases Date.ofCivil? w.year.value w.month.value w.day.value <;> rfl

theorem readLocalTime_day (w : Written) : readLocalTime (w.dayText ++ []) = none := by
  rw [readLocalTime, readDate_append]
  cases Date.ofCivil? w.year.value w.month.value w.day.value <;> rfl

theorem readLocalDate_day (hclock : w.clock = none) :
    readLocalDate (w.dayText ++ []) = w.moment? := by
  rw [readLocalDate, readDate_append, Written.moment?, hclock]
  cases Date.ofCivil? w.year.value w.month.value w.day.value <;> rfl

theorem readZoned_day (w : Written) : readZoned (w.dayText ++ []) = none := by
  simp only [readZoned, Written.dayText, List.append_assoc, List.cons_append,
    Figures.fixed_append, expect_cons, some_bind]
  rfl

/-! ## All readers -/

theorem read_of_splitZone_none (h : readZoned s = none) (hzone : splitZone s = none)
    (htrim : trim s = s) : read s = (readLocalTime s <|> readLocalDate s) := by
  simp only [read, htrim, h, hzone]

theorem read_day (hclock : w.clock = none) : read w.text = w.moment? := by
  have htext : w.text = w.dayText ++ [] := by rw [Written.text, hclock, Option.elim_none]
  have htrim := w.trim_text
  rw [htext] at htrim ⊢
  rw [read_of_splitZone_none (readZoned_day w) (splitZone_of_day w) htrim, readLocalTime_day,
    readLocalDate_day hclock]
  rfl

theorem read_local (hclock : w.clock = some c) (hz : c.zone = none) : read w.text = w.moment? := by
  have htext : w.text = w.dayText ++ 'T' :: (c.figures ++ []) := by
    rw [Written.text, hclock, Option.elim_some, Clock.text, hz, Option.elim_none]
  have htrim := w.trim_text
  have hzoned : readZoned (w.dayText ++ 'T' :: (c.figures ++ [])) = none := by
    rw [readZoned_append]
    rcases c.seconds with _ | t
    · exact readBehindMinutes_of_stops stops_nil
    · exact readBehindMinutes_of_not_zone stops_nil rfl
  rw [htext] at htrim ⊢
  rw [read_of_splitZone_none hzoned (splitZone_of_local w.run_dayText c) htrim,
    readLocalTime_text hclock hz, readLocalDate_cons]
  cases w.moment? <;> rfl

/-- The seconds that the reader puts in. -/
def noSeconds : Seconds := ⟨⟨['0', '0'], rfl, run_of_all rfl⟩, [], .nil⟩

theorem read_zoned (hclock : w.clock = some c) (hz : c.zone = some z) :
    read w.text = w.moment? := by
  have htext : w.text = w.dayText ++ 'T' :: (c.figures ++ z.text) := by
    rw [Written.text, hclock, Option.elim_some, Clock.text, hz, Option.elim_some]
  have htrim := w.trim_text
  have hretry : w.dayText ++ 'T' :: c.figures ++ ":00".toList ++ z.text =
      w.dayText ++ 'T' :: (c.figures ++ (noSeconds.text ++ z.text)) := by
    simp only [List.append_assoc, List.cons_append]
    rfl
  rw [htext] at htrim ⊢
  simp only [read, htrim, splitZone_of_zone, hretry, readZoned_append]
  rcases hseconds : c.seconds with _ | t
  · -- read for the first time, the zone stands where a colon is expected
    have hfirst : readBehindMinutes w c z.text = none :=
      readBehindMinutes_of_stops (z.stops rfl rfl rfl)
    have hsecond : c.second = noSeconds.whole.value := by rw [Clock.second, hseconds]; rfl
    have hnano : c.nano = nanoseconds noSeconds.places := by rw [Clock.nano_eq, hseconds]; rfl
    simp only [Option.elim_none, List.nil_append, hfirst]
    exact readBehindMinutes_zone hclock hz hsecond hnano
  · -- read again, a colon stands where the zone is expected
    have hsecond : c.second = t.whole.value := by rw [Clock.second, hseconds]; rfl
    have hnano : c.nano = nanoseconds t.places := by rw [Clock.nano_eq, hseconds]; rfl
    have hagain : readBehindMinutes w c (t.text ++ (noSeconds.text ++ z.text)) = none :=
      readBehindMinutes_of_not_zone (stops_cons.2 rfl) rfl
    simp only [Option.elim_some, readBehindMinutes_zone hclock hz hsecond hnano, hagain]
    cases w.moment? <;> rfl

/-- A date is read as the point in time that its parts make. -/
theorem read_text (w : Written) : read w.text = w.moment? := by
  rcases hclock : w.clock with _ | c
  · exact read_day hclock
  · rcases hz : c.zone with _ | z
    · exact read_local hclock hz
    · exact read_zoned hclock hz

/-- The dates of the grammar are the texts of written dates. Such a text is read exactly if its
date is real, and then as the point in time that the date says. -/
theorem read_date_names_instant :
    (∀ s, IsDate s ↔ ∃ w : Written, w.text = s) ∧
      ∀ w : Written, ((∃ t, read w.text = some t) ↔ w.IsReal) ∧
        ∀ t, read w.text = some t ↔ w.IsReal ∧ w.Names t := by
  refine ⟨fun s => isDate_iff_text, fun w => ⟨?_, ?_⟩⟩
  · rw [read_text]
    constructor
    · rintro ⟨t, ht⟩
      exact Written.isReal_of_moment? ht
    · intro hreal
      obtain ⟨t, ht, -⟩ := Written.exists_moment? hreal
      exact ⟨t, ht⟩
  · intro t
    rw [read_text]
    exact Written.moment?_eq_some

/-- The offset moves this one over the end of a leap year's February. -/
example : (read "2024-02-29T23:30-01:00".toList).map DateTime.write =
    some "2024-03-01T00:30:00".toList := rfl

/-- A leap second of the local year's end, on the first day of the year in UTC. -/
example : (read "2023-12-31T23:59:60.5-00:30".toList).map DateTime.write =
    some "2024-01-01T00:29:60.500".toList := rfl

end RecordFilter.Calendar.Timestamp

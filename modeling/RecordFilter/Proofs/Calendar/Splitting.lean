import RecordFilter.Proofs.Calendar.Written

/-!
# The zone of a written date

Which characters stand in the parts of a date, and from that where its zone is found: at a final
`Z`, or else at the last sign behind the letter `T`, so that the hyphens of the day are never taken
for one (`splitZone_of_zone`). Without a zone none is found (`splitZone_of_local`,
`splitZone_of_day`), and there is nothing to trim (`Written.trim_text`).
-/

namespace RecordFilter.Calendar.Timestamp

open RecordFilter.Filter Text

variable {s : List Char}

/-! ## Characters -/

/-- A digit or one of a few other characters. -/
def digitOr (others : List Char) (c : Char) : Bool := c.isDigit || others.contains c

theorem run_digitOr {others : List Char} (h : Run Char.isDigit s) : Run (digitOr others) s := by
  intro c hc
  rw [digitOr, h c hc, Bool.true_or]

/-- What holds for digits and for those characters holds for all of a run. -/
theorem of_digitOr {others : List Char} {p : Char → Bool} (h : Run (digitOr others) s)
    (hdigit : ∀ c, c.isDigit = true → p c = true) (hothers : others.all p = true) : Run p s := by
  intro c hc
  have hor := h c hc
  rw [digitOr, Bool.or_eq_true, List.contains_iff_mem] at hor
  rcases hor with hor | hor
  · exact hdigit c hor
  · exact List.all_eq_true.1 hothers c hor

theorem bne_of_isDigit {d : Char} (hd : d.isDigit = false) (c : Char) (h : c.isDigit = true) :
    (c != d) = true := by
  rw [bne_iff_ne]
  rintro rfl
  rw [hd] at h
  cases h

theorem Written.run_dayText (w : Written) : Run (digitOr ['+', '-']) w.dayText :=
  run_append.2 ⟨run_digitOr w.year.digits.2, run_cons.2 ⟨rfl, run_append.2
    ⟨run_digitOr w.month.digits.2, run_cons.2 ⟨rfl, run_digitOr w.day.digits.2⟩⟩⟩⟩

theorem Clock.run_figures (c : Clock) : Run (digitOr [':', '.']) c.figures := by
  refine run_append.2 ⟨run_digitOr c.hour.digits.2, run_cons.2 ⟨rfl, run_append.2
    ⟨run_digitOr c.minute.digits.2, ?_⟩⟩⟩
  rcases c.seconds with _ | ⟨whole, places, hplaces⟩
  · exact .nil
  · refine run_cons.2 ⟨rfl, run_append.2 ⟨run_digitOr whole.digits.2, ?_⟩⟩
    cases places with
    | nil => exact .nil
    | cons d places => exact run_cons.2 ⟨rfl, run_digitOr hplaces⟩

theorem Zone.run_text (z : Zone) : Run (digitOr [':', '+', '-', 'Z']) z.text := by
  rcases z with _ | ⟨_ | _, hours, minutes⟩
  · exact run_cons.2 ⟨rfl, .nil⟩
  all_goals exact run_cons.2 ⟨rfl, run_append.2 ⟨run_digitOr hours.digits.2, run_cons.2
    ⟨rfl, run_digitOr minutes.digits.2⟩⟩⟩

theorem trim_of_run (h : Run (fun c => !isBlank c) s) : trim s = s := by
  have hskip : ∀ {t : List Char}, Run (fun c => !isBlank c) t → skipBlanks t = t := by
    intro t ht
    refine Stops.dropWhile_eq fun c hc => ?_
    exact (Bool.not_eq_true' _).mp (ht c (List.mem_of_mem_head? hc))
  have hreverse : Run (fun c => !isBlank c) s.reverse := fun c hc => h c (List.mem_reverse.1 hc)
  rw [trim, hskip h, hskip hreverse, List.reverse_reverse]

/-- What consists of digits and of characters that are no blanks has none to trim. -/
theorem run_not_isBlank {others : List Char} (h : Run (digitOr others) s)
    (hothers : others.all (fun c => !isBlank c) = true) : Run (fun c => !isBlank c) s := by
  refine of_digitOr h (fun c hc => ?_) hothers
  rw [isBlank_eq_false_of_isDigit hc]
  rfl

theorem Clock.run_text (c : Clock) : Run (fun c => !isBlank c) c.text := by
  refine run_cons.2 ⟨by decide, run_append.2 ⟨run_not_isBlank c.run_figures (by decide), ?_⟩⟩
  rcases c.zone with _ | z
  · exact .nil
  · exact run_not_isBlank z.run_text (by decide)

theorem Written.trim_text (w : Written) : trim w.text = w.text := by
  refine trim_of_run (run_append.2 ⟨run_not_isBlank w.run_dayText (by decide), ?_⟩)
  rcases w.clock with _ | c
  · exact .nil
  · exact c.run_text

/-! ## Finding the zone -/

theorem splitLastSign_append (front : List Char) {tail : List Char} {sign : Char}
    (hsign : sign = '+' ∨ sign = '-') (htail : Run (fun c => c != '+' && c != '-') tail) :
    splitLastSign (front ++ sign :: tail) = some (front, sign :: tail) := by
  have hsplit : splitWhile (fun c => c != '+' && c != '-') (front ++ sign :: tail).reverse =
      (tail.reverse, sign :: front.reverse) := by
    refine splitWhile_eq_iff.2 ⟨fun c hc => htail c (List.mem_reverse.1 hc), ?_, ?_⟩
    · rw [List.reverse_append, List.reverse_cons, List.append_assoc, List.singleton_append]
    · rcases hsign with rfl | rfl <;> exact stops_cons.2 rfl
  rw [splitLastSign, hsplit]
  simp only [List.reverse_reverse]

theorem splitLastSign_eq_none (h : Run (fun c => c != '+' && c != '-') s) :
    splitLastSign s = none := by
  have hsplit : splitWhile (fun c => c != '+' && c != '-') s.reverse = (s.reverse, []) :=
    splitWhile_eq_iff.2 ⟨fun c hc => h c (List.mem_reverse.1 hc), (List.append_nil _).symm,
      stops_nil⟩
  rw [splitLastSign, hsplit]

theorem isNoSign_of_isDigit (c : Char) (h : c.isDigit = true) :
    (c != '+' && c != '-') = true := by
  rw [bne_of_isDigit rfl c h, bne_of_isDigit rfl c h]
  rfl

/-- A day, with a sign before it or without one, ends at the first `T`. -/
theorem splitWhile_day {day : List Char} (h : Run (digitOr ['+', '-']) day) (s : List Char) :
    splitWhile (· != 'T') (day ++ 'T' :: s) = (day, 'T' :: s) :=
  splitWhile_eq_iff.2 ⟨of_digitOr h (bne_of_isDigit rfl) rfl, rfl, stops_cons.2 rfl⟩

theorem getLast?_ne_of_run {d : Char} (h : Run (· != d) s) : s.getLast? ≠ some d := by
  intro hlast
  exact bne_iff_ne.1 (h d (List.mem_of_getLast? hlast)) rfl

/-- A zone behind a time is found: a final `Z`, or else the last sign, which is no part of the
day. -/
theorem splitZone_of_zone (w : Written) (c : Clock) (z : Zone) :
    splitZone (w.dayText ++ 'T' :: (c.figures ++ z.text)) =
      some (w.dayText ++ 'T' :: c.figures, z.text) := by
  have hassoc : w.dayText ++ 'T' :: (c.figures ++ z.text) =
      w.dayText ++ 'T' :: c.figures ++ z.text := by
    rw [List.append_assoc, List.cons_append]
  rw [splitZone, splitWhile_day w.run_dayText]
  cases z with
  | utc =>
    have hlast : (w.dayText ++ 'T' :: (c.figures ++ Zone.utc.text)).getLast? = some 'Z' := by
      rw [hassoc]
      exact List.getLast?_concat
    have hdrop : (w.dayText ++ 'T' :: (c.figures ++ Zone.utc.text)).dropLast =
        w.dayText ++ 'T' :: c.figures := by
      rw [hassoc]
      exact List.dropLast_concat
    simp only [hlast, if_true, hdrop]
    rfl
  | offset behind hours minutes =>
    -- no character is a `Z`, and behind the sign there is no other one
    have hz : ∀ c : Char, c.isDigit = true → (c != 'Z') = true := bne_of_isDigit rfl
    have hzone : Run (· != 'Z') (Zone.offset behind hours minutes).text := by
      refine run_cons.2 ⟨?_, run_append.2 ⟨fun c hc => hz c (hours.digits.2 c hc),
        run_cons.2 ⟨rfl, fun c hc => hz c (minutes.digits.2 c hc)⟩⟩⟩
      cases behind <;> rfl
    have hlast := getLast?_ne_of_run (run_append.2 ⟨of_digitOr w.run_dayText hz rfl,
      run_cons.2 ⟨(rfl : ('T' != 'Z') = true),
        run_append.2 ⟨of_digitOr c.run_figures hz rfl, hzone⟩⟩⟩)
    have htail : Run (fun c => c != '+' && c != '-') (hours.text ++ ':' :: minutes.text) :=
      run_append.2 ⟨fun c hc => isNoSign_of_isDigit c (hours.digits.2 c hc),
        run_cons.2 ⟨rfl, fun c hc => isNoSign_of_isDigit c (minutes.digits.2 c hc)⟩⟩
    have hsign : (if behind then '-' else '+') = '+' ∨ (if behind then '-' else '+') = '-' := by
      cases behind <;> simp
    have hsplit := splitLastSign_append ('T' :: c.figures) hsign htail
    simp only [if_neg hlast]
    rw [Zone.text, ← List.cons_append, hsplit]
    rfl

theorem splitZone_of_local {day : List Char} (h : Run (digitOr ['+', '-']) day) (c : Clock) :
    splitZone (day ++ 'T' :: (c.figures ++ [])) = none := by
  have hz : ∀ c : Char, c.isDigit = true → (c != 'Z') = true := bne_of_isDigit rfl
  have hlast : (day ++ 'T' :: c.figures).getLast? ≠ some 'Z' :=
    getLast?_ne_of_run (run_append.2 ⟨of_digitOr h hz rfl, run_cons.2
      ⟨rfl, of_digitOr c.run_figures hz rfl⟩⟩)
  have hsplit := splitLastSign_eq_none (s := 'T' :: c.figures)
    (run_cons.2 ⟨rfl, of_digitOr c.run_figures isNoSign_of_isDigit rfl⟩)
  rw [List.append_nil, splitZone, splitWhile_day h]
  simp only [if_neg hlast, hsplit]
  rfl

theorem splitZone_of_day (w : Written) : splitZone (w.dayText ++ []) = none := by
  have hsplit : splitWhile (· != 'T') (w.dayText ++ []) = (w.dayText, []) :=
    splitWhile_eq_iff.2 ⟨of_digitOr w.run_dayText (bne_of_isDigit rfl) rfl, rfl, stops_nil⟩
  rw [splitZone, hsplit]

end RecordFilter.Calendar.Timestamp

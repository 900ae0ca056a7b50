import RecordFilter.Proofs.Filter.Tokens

/-!
# The tokens of arguments

An argument is a quoted text, a date, a number or a bare word. Their shapes are given as in the
grammar, by how the text is put together, and the checks of the scanner agree with them
(`isDate_iff`, `isNumber_iff`, `closing?_eq_some`).

Dates and numbers are words, that is, runs of word characters. A word that is an argument is taken
whole and classified afterwards, so it is a date or a number only if all of it is
(`literal?_eq_some`).
-/

namespace RecordFilter.Filter

open Text

/-! ## Digits -/

/-- A number of digits. -/
def Digits (n : Nat) (s : List Char) : Prop := s.length = n ∧ Run Char.isDigit s

theorem digits_zero_iff {s : List Char} : Digits 0 s ↔ s = [] := by
  rw [Digits, List.length_eq_zero_iff]
  refine ⟨And.left, ?_⟩
  rintro rfl
  exact ⟨rfl, .nil⟩

/-- One digit more. -/
theorem digits_succ_iff {n : Nat} {s : List Char} :
    Digits (n + 1) s ↔ ∃ c w, s = c :: w ∧ c.isDigit = true ∧ Digits n w := by
  constructor
  · rintro ⟨hlen, hs⟩
    obtain ⟨c, w, rfl⟩ := List.exists_cons_of_length_eq_add_one hlen
    rw [run_cons] at hs
    exact ⟨c, w, rfl, hs.1, Nat.succ.inj hlen, hs.2⟩
  · rintro ⟨c, w, rfl, hc, hlen, hw⟩
    exact ⟨congrArg Nat.succ hlen, run_cons.2 ⟨hc, hw⟩⟩

theorem Digits.cons {n : Nat} {c : Char} {w : List Char} (hc : c.isDigit = true)
    (h : Digits n w) : Digits (n + 1) (c :: w) := digits_succ_iff.2 ⟨c, w, rfl, hc, h⟩

theorem Digits.nil : Digits 0 [] := digits_zero_iff.2 rfl

/-- One or more digits. -/
def SomeDigits (s : List Char) : Prop := s ≠ [] ∧ Run Char.isDigit s

/-! ## Numbers -/

/-- A point and digits behind it. -/
def IsFraction (s : List Char) : Prop := ∃ places, s = '.' :: places ∧ SomeDigits places

/-- A number: digits, perhaps with a minus before them and a fraction behind them. -/
def IsNumber (s : List Char) : Prop :=
  ∃ sign whole fraction, s = sign ++ whole ++ fraction ∧ (sign = [] ∨ sign = ['-']) ∧
    SomeDigits whole ∧ (fraction = [] ∨ IsFraction fraction)

theorem isUnsigned_iff {s : List Char} :
    isUnsigned s = true ↔ ∃ whole fraction, s = whole ++ fraction ∧ SomeDigits whole ∧
      (fraction = [] ∨ IsFraction fraction) := by
  constructor
  · intro h
    unfold isUnsigned at h
    split at h
    · cases h
    · next whole hne hs =>
      obtain ⟨hw, rfl, -⟩ := splitWhile_eq_iff.1 hs
      exact ⟨whole, [], rfl, ⟨hne, hw⟩, .inl rfl⟩
    · next whole places hne hs =>
      obtain ⟨hw, rfl, -⟩ := splitWhile_eq_iff.1 hs
      rw [Bool.and_eq_true, Bool.not_eq_true', List.isEmpty_eq_false_iff, List.all_eq_true] at h
      exact ⟨whole, _, rfl, ⟨hne, hw⟩, .inr ⟨places, rfl, h⟩⟩
    · cases h
  · rintro ⟨whole, fraction, rfl, ⟨hne, hw⟩, rfl | ⟨places, rfl, hplaces⟩⟩
    · have hs : spanDigits (whole ++ []) = (whole, []) :=
        splitWhile_eq_iff.2 ⟨hw, rfl, stops_nil⟩
      cases whole with
      | nil => exact absurd rfl hne
      | cons c whole => simp only [isUnsigned, hs]
    · have hs : spanDigits (whole ++ '.' :: places) = (whole, '.' :: places) :=
        splitWhile_eq_iff.2 ⟨hw, rfl, stops_cons.2 rfl⟩
      cases whole with
      | nil => exact absurd rfl hne
      | cons c whole =>
        simp only [isUnsigned, hs]
        rw [Bool.and_eq_true, Bool.not_eq_true', List.isEmpty_eq_false_iff, List.all_eq_true]
        exact hplaces

theorem isNumber_iff {s : List Char} : isNumber s = true ↔ IsNumber s := by
  constructor
  · intro h
    unfold isNumber at h
    split at h
    · obtain ⟨whole, fraction, rfl, hparts⟩ := isUnsigned_iff.1 h
      exact ⟨['-'], whole, fraction, rfl, .inr rfl, hparts⟩
    · obtain ⟨whole, fraction, rfl, hparts⟩ := isUnsigned_iff.1 h
      exact ⟨[], whole, fraction, rfl, .inl rfl, hparts⟩
  · rintro ⟨sign, whole, fraction, rfl, rfl | rfl, h⟩
    · unfold isNumber
      split
      · next s heq =>
        -- a sign would be the first digit
        obtain ⟨⟨hne, hw⟩, -⟩ := h
        cases whole with
        | nil => exact absurd rfl hne
        | cons c whole =>
          have hc := hw c List.mem_cons_self
          rw [(List.cons.inj heq).1] at hc
          cases hc
      · exact isUnsigned_iff.2 ⟨whole, fraction, rfl, h⟩
    · exact isUnsigned_iff.2 ⟨whole, fraction, rfl, h⟩

/-! ## Dates -/

/-- A zone: `Z`, or a sign, hours and minutes. -/
def IsZone (s : List Char) : Prop :=
  s = ['Z'] ∨ ∃ sign hours minutes, s = sign :: (hours ++ ':' :: minutes) ∧
    (sign = '+' ∨ sign = '-') ∧ Digits 2 hours ∧ Digits 2 minutes

/-- The seconds of a time, perhaps with a fraction. -/
def IsSeconds (s : List Char) : Prop :=
  ∃ whole fraction, s = ':' :: (whole ++ fraction) ∧ Digits 2 whole ∧
    (fraction = [] ∨ IsFraction fraction)

/-- A time: hours and minutes, perhaps with seconds and a zone. -/
def IsTime (s : List Char) : Prop :=
  ∃ hours minutes seconds zone, s = 'T' :: (hours ++ ':' :: (minutes ++ (seconds ++ zone))) ∧
    Digits 2 hours ∧ Digits 2 minutes ∧ (seconds = [] ∨ IsSeconds seconds) ∧
    (zone = [] ∨ IsZone zone)

/-- A date: year, month and day, perhaps with a time. -/
def IsDate (s : List Char) : Prop :=
  ∃ year month day time, s = year ++ '-' :: (month ++ '-' :: (day ++ time)) ∧
    Digits 4 year ∧ Digits 2 month ∧ Digits 2 day ∧ (time = [] ∨ IsTime time)

theorem isZone_iff {s : List Char} : isZone s = true ↔ s = [] ∨ IsZone s := by
  constructor
  · intro h
    unfold isZone at h
    split at h
    · exact .inl rfl
    · exact .inr (.inl rfl)
    · next sign a b c d =>
      simp only [Bool.and_eq_true, Bool.or_eq_true, beq_iff_eq] at h
      obtain ⟨⟨⟨⟨hsign, ha⟩, hb⟩, hc⟩, hd⟩ := h
      exact .inr (.inr ⟨sign, [a, b], [c, d], rfl, hsign,
        .cons ha (.cons hb .nil), .cons hc (.cons hd .nil)⟩)
    · cases h
  · rintro (rfl | rfl | ⟨sign, hours, minutes, rfl, hsign, hh, hm⟩)
    · rfl
    · rfl
    · simp only [digits_succ_iff, digits_zero_iff] at hh hm
      obtain ⟨a, _, rfl, ha, b, _, rfl, hb, rfl⟩ := hh
      obtain ⟨c, _, rfl, hc, d, _, rfl, hd, rfl⟩ := hm
      simp only [isZone, List.cons_append, List.nil_append, ha, hb, hc, hd, Bool.and_true,
        Bool.or_eq_true, beq_iff_eq]
      exact hsign

theorem IsZone.stops_isDigit {s : List Char} (h : s = [] ∨ IsZone s) : Stops Char.isDigit s := by
  rcases h with rfl | rfl | ⟨sign, hours, minutes, rfl, rfl | rfl, -⟩
  · exact stops_nil
  all_goals exact stops_cons.2 rfl

theorem isAfterSeconds_iff {s : List Char} :
    isAfterSeconds s = true ↔ ∃ fraction zone, s = fraction ++ zone ∧
      (fraction = [] ∨ IsFraction fraction) ∧ (zone = [] ∨ IsZone zone) := by
  constructor
  · intro h
    unfold isAfterSeconds at h
    split at h
    · next s =>
      rw [Bool.and_eq_true, Bool.not_eq_true', List.isEmpty_eq_false_iff, isZone_iff] at h
      obtain ⟨hrun, hsplit, -⟩ := splitWhile_eq_iff.1 (rfl : splitWhile Char.isDigit s = _)
      exact ⟨'.' :: (spanDigits s).1, (spanDigits s).2, congrArg ('.' :: ·) hsplit,
        .inr ⟨_, rfl, h.1, hrun⟩, h.2⟩
    · exact ⟨[], s, rfl, .inl rfl, isZone_iff.1 h⟩
  · rintro ⟨fraction, zone, rfl, rfl | ⟨places, rfl, hne, hp⟩, hzone⟩
    · unfold isAfterSeconds
      split
      · next heq =>
        -- no zone begins with a point
        rw [List.nil_append] at heq
        rcases hzone with rfl | rfl | ⟨sign, hours, minutes, rfl, rfl | rfl, -⟩ <;> cases heq
      · exact isZone_iff.2 hzone
    · have hs : spanDigits (places ++ zone) = (places, zone) :=
        splitWhile_eq_iff.2 ⟨hp, rfl, IsZone.stops_isDigit hzone⟩
      rw [List.cons_append, isAfterSeconds, hs, Bool.and_eq_true, Bool.not_eq_true',
        List.isEmpty_eq_false_iff, isZone_iff]
      exact ⟨hne, hzone⟩

theorem isAfterMinutes_iff {s : List Char} :
    isAfterMinutes s = true ↔ ∃ seconds zone, s = seconds ++ zone ∧
      (seconds = [] ∨ IsSeconds seconds) ∧ (zone = [] ∨ IsZone zone) := by
  constructor
  · intro h
    unfold isAfterMinutes at h
    split at h
    · next a b s =>
      simp only [Bool.and_eq_true, isAfterSeconds_iff] at h
      obtain ⟨⟨ha, hb⟩, fraction, zone, rfl, hfraction, hzone⟩ := h
      exact ⟨':' :: ([a, b] ++ fraction), zone, rfl,
        .inr ⟨[a, b], fraction, rfl, .cons ha (.cons hb .nil), hfraction⟩, hzone⟩
    · exact ⟨[], s, rfl, .inl rfl, isZone_iff.1 h⟩
  · rintro ⟨seconds, zone, rfl, rfl | ⟨whole, fraction, rfl, hw, hfraction⟩, hzone⟩
    · unfold isAfterMinutes
      split
      · next heq =>
        -- and none with the colon of the seconds
        rw [List.nil_append] at heq
        rcases hzone with rfl | rfl | ⟨sign, hours, minutes, rfl, rfl | rfl, -⟩ <;> cases heq
      · exact isZone_iff.2 hzone
    · simp only [digits_succ_iff, digits_zero_iff] at hw
      obtain ⟨a, _, rfl, ha, b, _, rfl, hb, rfl⟩ := hw
      simp only [isAfterMinutes, List.cons_append, List.nil_append, ha, hb, Bool.true_and,
        isAfterSeconds_iff]
      exact ⟨fraction, zone, rfl, hfraction, hzone⟩

theorem isAfterDay_iff {s : List Char} : isAfterDay s = true ↔ s = [] ∨ IsTime s := by
  constructor
  · intro h
    unfold isAfterDay at h
    split at h
    · exact .inl rfl
    · next a b c d s =>
      simp only [Bool.and_eq_true, isAfterMinutes_iff] at h
      obtain ⟨⟨⟨⟨ha, hb⟩, hc⟩, hd⟩, seconds, zone, rfl, h⟩ := h
      exact .inr ⟨[a, b], [c, d], seconds, zone, rfl, .cons ha (.cons hb .nil),
        .cons hc (.cons hd .nil), h⟩
    · cases h
  · rintro (rfl | ⟨hours, minutes, seconds, zone, rfl, hh, hm, h⟩)
    · rfl
    · simp only [digits_succ_iff, digits_zero_iff] at hh hm
      obtain ⟨a, _, rfl, ha, b, _, rfl, hb, rfl⟩ := hh
      obtain ⟨c, _, rfl, hc, d, _, rfl, hd, rfl⟩ := hm
      simp only [isAfterDay, List.cons_append, List.nil_append, ha, hb, hc, hd, Bool.true_and,
        isAfterMinutes_iff]
      exact ⟨seconds, zone, rfl, h⟩

theorem isDate_iff {s : List Char} : isDate s = true ↔ IsDate s := by
  constructor
  · intro hs
    unfold isDate at hs
    split at hs
    · next a b c d e f g h time =>
      simp only [Bool.and_eq_true, isAfterDay_iff] at hs
      obtain ⟨⟨⟨⟨⟨⟨⟨⟨ha, hb⟩, hc⟩, hd⟩, he⟩, hf⟩, hg⟩, hh⟩, htime⟩ := hs
      exact ⟨[a, b, c, d], [e, f], [g, h], time, rfl,
        .cons ha (.cons hb (.cons hc (.cons hd .nil))), .cons he (.cons hf .nil),
        .cons hg (.cons hh .nil), htime⟩
    · cases hs
  · rintro ⟨year, month, day, time, rfl, hy, hm, hday, htime⟩
    simp only [digits_succ_iff, digits_zero_iff] at hy hm hday
    obtain ⟨a, _, rfl, ha, b, _, rfl, hb, c, _, rfl, hc, d, _, rfl, hd, rfl⟩ := hy
    obtain ⟨e, _, rfl, he, f, _, rfl, hf, rfl⟩ := hm
    obtain ⟨g, _, rfl, hg, h, _, rfl, hh, rfl⟩ := hday
    simp only [isDate, List.cons_append, List.nil_append, ha, hb, hc, hd, he, hf, hg, hh,
      Bool.true_and, isAfterDay_iff]
    exact htime

theorem IsNumber.not_isDate {s : List Char} (hnumber : IsNumber s) : ¬ IsDate s := by
  rintro ⟨year, month, day, time, rfl, hyear, -⟩
  obtain ⟨a, rest, rfl, ha, -⟩ := digits_succ_iff.1 hyear
  obtain ⟨sign, whole, fraction, heq, hsign, ⟨-, hwhole⟩, hfraction⟩ := hnumber
  rcases hsign with rfl | rfl
  · -- the hyphen behind the year is in no part of a number without a sign
    have hmem : '-' ∈ [] ++ whole ++ fraction := heq ▸ by simp
    rw [List.nil_append, List.mem_append] at hmem
    rcases hmem with h | h
    · cases hwhole _ h
    · rcases hfraction with rfl | ⟨places, rfl, -, hplaces⟩
      · cases h
      · rcases List.mem_cons.1 h with h | h
        · cases h
        · cases hplaces _ h
  · rw [(List.cons.inj heq).1] at ha
    cases ha

/-! ## Words -/

/-- A word: one or more word characters. -/
def IsWord (s : List Char) : Prop := s ≠ [] ∧ Run isWordChar s

theorem isWordChar_of_isDigit {c : Char} (h : c.isDigit = true) : isWordChar c = true := by
  have hall : ∀ x ∈ nonWordChars, x.isDigit = false := by simp [nonWordChars]
  rw [← Bool.not_eq_false, isWordChar_eq_false_iff]
  intro hmem
  rw [hall c hmem] at h
  cases h

theorem Run.isWordChar {s : List Char} (h : Run Char.isDigit s) : Run isWordChar s :=
  fun c hc => isWordChar_of_isDigit (h c hc)

theorem IsFraction.run {s : List Char} (h : s = [] ∨ IsFraction s) : Run isWordChar s := by
  rcases h with rfl | ⟨places, rfl, -, hplaces⟩
  · exact .nil
  · exact run_cons.2 ⟨rfl, hplaces.isWordChar⟩

theorem IsNumber.isWord {s : List Char} (h : IsNumber s) : IsWord s := by
  obtain ⟨sign, whole, fraction, rfl, hsign, ⟨hne, hwhole⟩, hfraction⟩ := h
  constructor
  · intro heq
    exact hne (List.append_eq_nil_iff.1 (List.append_eq_nil_iff.1 heq).1).2
  · refine run_append.2 ⟨run_append.2 ⟨?_, hwhole.isWordChar⟩, IsFraction.run hfraction⟩
    rcases hsign with rfl | rfl
    · exact .nil
    · exact run_cons.2 ⟨rfl, .nil⟩

theorem IsZone.run {s : List Char} (h : s = [] ∨ IsZone s) : Run isWordChar s := by
  rcases h with rfl | rfl | ⟨sign, hours, minutes, rfl, hsign, ⟨-, hh⟩, -, hm⟩
  · exact .nil
  · exact run_cons.2 ⟨rfl, .nil⟩
  · refine run_cons.2 ⟨?_, run_append.2 ⟨hh.isWordChar, run_cons.2 ⟨rfl, hm.isWordChar⟩⟩⟩
    rcases hsign with rfl | rfl <;> rfl

theorem IsSeconds.run {s : List Char} (h : s = [] ∨ IsSeconds s) : Run isWordChar s := by
  rcases h with rfl | ⟨whole, fraction, rfl, ⟨-, hwhole⟩, hfraction⟩
  · exact .nil
  · exact run_cons.2 ⟨rfl, run_append.2 ⟨hwhole.isWordChar, IsFraction.run hfraction⟩⟩

theorem IsTime.run {s : List Char} (h : s = [] ∨ IsTime s) : Run isWordChar s := by
  rcases h with rfl | ⟨hours, minutes, seconds, zone, rfl, ⟨-, hh⟩, ⟨-, hm⟩, hseconds, hzone⟩
  · exact .nil
  · exact run_cons.2 ⟨rfl, run_append.2 ⟨hh.isWordChar, run_cons.2 ⟨rfl, run_append.2
      ⟨hm.isWordChar, run_append.2 ⟨IsSeconds.run hseconds, IsZone.run hzone⟩⟩⟩⟩⟩

theorem IsDate.isWord {s : List Char} (h : IsDate s) : IsWord s := by
  obtain ⟨year, month, day, time, rfl, ⟨-, hy⟩, ⟨-, hm⟩, ⟨-, hd⟩, htime⟩ := h
  constructor
  · simp
  · exact run_append.2 ⟨hy.isWordChar, run_cons.2 ⟨rfl, run_append.2 ⟨hm.isWordChar,
      run_cons.2 ⟨rfl, run_append.2 ⟨hd.isWordChar, IsTime.run htime⟩⟩⟩⟩⟩

/-! ## Quoted texts -/

/-- What may stand between two quotes: anything but that quote, and a backslash only together with
the character behind it, whatever that is. -/
inductive QuotedBody (quote : Char) : List Char → Prop
  | nil : QuotedBody quote []
  | plain {c : Char} {s : List Char} (hquote : c ≠ quote) (hbackslash : c ≠ '\\')
      (hs : QuotedBody quote s) : QuotedBody quote (c :: s)
  | escaped (c : Char) {s : List Char} (hs : QuotedBody quote s) :
      QuotedBody quote ('\\' :: c :: s)

/-- A text in single or double quotes. -/
def IsQuoted (s : List Char) : Prop :=
  ∃ quote body, (quote = '\'' ∨ quote = '"') ∧ QuotedBody quote body ∧
    s = quote :: (body ++ [quote])

theorem closing?_of_quotedBody {quote : Char} {body rest : List Char} (hquote : quote ≠ '\\')
    (h : QuotedBody quote body) :
    closing? quote (body ++ quote :: rest) = some (body ++ [quote], rest) := by
  induction h with
  | nil =>
    rw [List.nil_append, closing?, if_pos rfl]
    · rfl
    · exact fun _ _ heq => absurd heq hquote
  | plain hc hbackslash _ ih =>
    rw [List.cons_append, closing?, if_neg hc, ih]
    · rfl
    · exact fun _ _ heq => absurd heq hbackslash
  | escaped c _ ih =>
    rw [List.cons_append, List.cons_append, closing?, ih]
    rfl

theorem quotedBody_of_closing? {quote : Char} {s text rest : List Char}
    (h : closing? quote s = some (text, rest)) :
    ∃ body, QuotedBody quote body ∧ text = body ++ [quote] ∧ s = text ++ rest := by
  fun_induction closing? quote s generalizing text with
  | case1 => cases h
  | case2 c s ih =>
    obtain ⟨⟨t, r⟩, ht, he⟩ := Option.map_eq_some_iff.1 h
    cases he
    obtain ⟨body, hbody, rfl, rfl⟩ := ih ht
    exact ⟨_, .escaped c hbody, rfl, rfl⟩
  | case3 s hescape =>
    cases h
    exact ⟨[], .nil, rfl, rfl⟩
  | case4 c s hescape hc ih =>
    obtain ⟨⟨t, r⟩, ht, he⟩ := Option.map_eq_some_iff.1 h
    cases he
    obtain ⟨body, hbody, rfl, rfl⟩ := ih ht
    refine ⟨c :: body, .plain hc ?_ hbody, rfl, rfl⟩
    rintro rfl
    -- a backslash that takes nothing with it stands before the closing quote, so it takes that
    cases hs : body ++ [quote] ++ rest with
    | nil => simp at hs
    | cons d s => exact hescape d s rfl hs

/-! ## Arguments -/

/-- The text of an argument has the shape that its form promises; a bare word is neither a date nor
a number. -/
def Literal.Matches : Literal → Prop
  | .quoted text => IsQuoted text.toList
  | .date text => IsDate text.toList
  | .number text => IsNumber text.toList
  | .bare text => IsWord text.toList ∧ ¬ IsDate text.toList ∧ ¬ IsNumber text.toList

/-- An argument without quotes. -/
def Literal.Unquoted (l : Literal) : Prop := ∀ text, l ≠ .quoted text

theorem Literal.unquoted_or_quoted (l : Literal) : l.Unquoted ∨ ∃ text, l = .quoted text := by
  by_cases h : ∃ text, l = .quoted text
  · exact .inr h
  · exact .inl fun text hl => h ⟨text, hl⟩

theorem Literal.Matches.isWord {l : Literal} (h : l.Matches) (hl : l.Unquoted) :
    IsWord l.text.toList := by
  cases l with
  | quoted text => exact absurd rfl (hl text)
  | date text => exact IsDate.isWord h
  | number text => exact IsNumber.isWord h
  | bare text => exact h.1

theorem Literal.ofWord_spec {w : List Char} (hw : IsWord w) :
    (ofWord w).Matches ∧ (ofWord w).Unquoted ∧ (ofWord w).text.toList = w := by
  rw [ofWord]
  split
  · next hdate =>
    refine ⟨?_, nofun, String.toList_ofList⟩
    simpa only [Matches, String.toList_ofList] using isDate_iff.1 hdate
  · next hdate =>
    split
    · next hnumber =>
      refine ⟨?_, nofun, String.toList_ofList⟩
      simpa only [Matches, String.toList_ofList] using isNumber_iff.1 hnumber
    · next hnumber =>
      refine ⟨?_, nofun, String.toList_ofList⟩
      simp only [Matches, String.toList_ofList]
      exact ⟨hw, mt isDate_iff.2 hdate, mt isNumber_iff.2 hnumber⟩

theorem Literal.ofWord_text {l : Literal} (h : l.Matches) (hl : l.Unquoted) :
    ofWord l.text.toList = l := by
  cases l with
  | quoted text => exact absurd rfl (hl text)
  | date text =>
    rw [Literal.text, ofWord, if_pos (isDate_iff.2 h), String.ofList_toList]
  | number text =>
    rw [Literal.text, ofWord, if_neg (mt isDate_iff.1 (IsNumber.not_isDate h)),
      if_pos (isNumber_iff.2 h), String.ofList_toList]
  | bare text =>
    rw [Literal.text, ofWord, if_neg (mt isDate_iff.1 h.2.1), if_neg (mt isNumber_iff.1 h.2.2),
      String.ofList_toList]

/-- An argument is found exactly where one stands; without quotes, it has to be a whole word. -/
theorem literal?_eq_some {s rest : List Char} {l : Literal} :
    literal? s = some (l, rest) ↔
      l.Matches ∧ s = l.text.toList ++ rest ∧ (l.Unquoted → Stops isWordChar rest) := by
  constructor
  · intro h
    cases s with
    | nil => cases h
    | cons c s =>
      rw [literal?] at h
      split at h
      · next hquote =>
        obtain ⟨⟨text, r⟩, htext, he⟩ := Option.map_eq_some_iff.1 h
        cases he
        obtain ⟨body, hbody, rfl, rfl⟩ := quotedBody_of_closing? htext
        refine ⟨?_, by simp [Literal.text], fun hl => absurd rfl (hl _)⟩
        rw [Literal.Matches, String.toList_ofList]
        exact ⟨c, body, hquote, hbody, rfl⟩
      · split at h
        · next hc =>
          cases h
          have hword : IsWord (c :: s.takeWhile isWordChar) :=
            ⟨List.cons_ne_nil _ _, run_cons.2 ⟨hc, run_takeWhile⟩⟩
          obtain ⟨hmatches, hl, htext⟩ := Literal.ofWord_spec hword
          refine ⟨hmatches, ?_, fun _ => stops_dropWhile⟩
          rw [htext, List.cons_append, List.takeWhile_append_dropWhile]
        · cases h
  · rintro ⟨hmatches, rfl, hstops⟩
    rcases l.unquoted_or_quoted with hl | ⟨text, rfl⟩
    · -- the word is the longest run at the head of the text, and it is classified as it was
      obtain ⟨hne, hrun⟩ := hmatches.isWord hl
      have hsplit := splitWhile_eq_iff.2 ⟨hrun, rfl, hstops hl⟩
      have hword := Literal.ofWord_text hmatches hl
      cases hw : l.text.toList with
      | nil => exact absurd hw hne
      | cons c w =>
        rw [hw] at hsplit hword hrun
        have hc := hrun c List.mem_cons_self
        obtain ⟨htake, hdrop⟩ := Prod.mk.inj hsplit
        rw [List.cons_append, List.takeWhile_cons_of_pos hc] at htake
        rw [List.cons_append, List.dropWhile_cons_of_pos hc] at hdrop
        have hquote : ¬ (c = '\'' ∨ c = '"') := by
          rintro (rfl | rfl) <;> cases hc
        rw [List.cons_append, literal?, if_neg hquote, if_pos hc, htake, hdrop, hword]
    · obtain ⟨quote, body, hquote, hbody, htext⟩ := hmatches
      have hbackslash : quote ≠ '\\' := by
        rintro rfl
        revert hquote
        decide
      rw [Literal.text, htext, List.cons_append, literal?, if_pos hquote, List.append_assoc,
        List.singleton_append, closing?_of_quotedBody hbackslash hbody, Option.map_some]
      simp only [← htext, String.ofList_toList]

end RecordFilter.Filter

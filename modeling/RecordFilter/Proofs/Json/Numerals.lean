import RecordFilter.Json.Value
import RecordFilter.Proofs.Filter.Literals
import RecordFilter.Proofs.Number.Decimals
import RecordFilter.Proofs.Number.Nan

/-!
# Numerals and their readers

A numeral is digits with a point and an exponent, and stands for a number
(`Numeral.magnitude`). Its text is read in four ways: as an integer, as a float, as a decimal and as
a number of a JSON document. The first three give the integer, the nearest float and the decimal
with these digits (`readInt_write`, `binaryRead_write`, `decimalRead_write`); the last takes no
needless zeros (`jsonRead_write`).
-/

namespace RecordFilter.Json

open RecordFilter.Filter RecordFilter.Number Text

namespace Numeral

variable {n : Numeral}

/-- Digits before the point, and in the exponent if there is one. -/
structure WellFormed (n : Numeral) : Prop where
  whole : SomeDigits n.whole
  places : Run Char.isDigit n.places
  exponent : ∀ p ∈ n.exponent, SomeDigits p.2

/-- The number of the digits, without their point. -/
def significand (n : Numeral) : ℕ := ofDigits (n.whole ++ n.places)

/-- The number in the exponent. -/
def shift (n : Numeral) : ℤ :=
  match n.exponent with
  | none => 0
  | some (below, ds) => signed below (ofDigits ds)

/-- How many of the digits stand behind the point, after the exponent has moved it. -/
def scale (n : Numeral) : ℤ := n.places.length - n.shift

/-- The number that a numeral stands for, without its sign. -/
def magnitude (n : Numeral) : ℚ := n.significand * 10 ^ (-n.scale)

/-! ## Parts of the text -/

/-- The text behind the digits before the point, up to the exponent. -/
def fraction (n : Numeral) : List Char := if n.places.isEmpty then [] else '.' :: n.places

/-- The text before the exponent. -/
def mantissa (n : Numeral) : List Char :=
  (if n.negative then ['-'] else []) ++ n.whole ++ n.fraction

/-- The text of the exponent. -/
def exponentText (n : Numeral) : List Char :=
  match n.exponent with
  | none => []
  | some (negative, ds) => 'e' :: (if negative then '-' else '+') :: ds

theorem write_eq (n : Numeral) : n.write = n.mantissa ++ n.exponentText := rfl

theorem ne_of_isDigit {c d : Char} (hc : c.isDigit = true) (hd : d.isDigit = false) : c ≠ d := by
  rintro rfl
  rw [hc] at hd
  cases hd

theorem WellFormed.exists_digit (hn : n.WellFormed) :
    ∃ c w, n.whole = c :: w ∧ c.isDigit = true := by
  obtain ⟨hne, hrun⟩ := hn.whole
  obtain ⟨c, w, hw⟩ := List.exists_cons_of_ne_nil hne
  exact ⟨c, w, hw, hrun c (by rw [hw]; exact List.mem_cons_self)⟩

/-- A numeral begins with its sign or with a digit. -/
theorem WellFormed.exists_head (hn : n.WellFormed) :
    ∃ c s, n.write = c :: s ∧ (c = '-' ∨ c.isDigit = true) := by
  obtain ⟨c, w, hw, hc⟩ := hn.exists_digit
  rw [write_eq, mantissa, hw]
  cases n.negative with
  | true => exact ⟨_, _, rfl, .inl rfl⟩
  | false => exact ⟨_, _, rfl, .inr hc⟩

theorem spanSign_of_digit {c : Char} {s : List Char} (hc : c.isDigit = true) :
    spanSign (c :: s) = (false, c :: s) := by
  unfold spanSign
  split
  · next heq => exact absurd (List.cons.inj heq).1 (ne_of_isDigit hc rfl)
  · next heq => exact absurd (List.cons.inj heq).1 (ne_of_isDigit hc rfl)
  · rfl

/-- The sign is the one of the numeral, and the digits follow it. -/
theorem WellFormed.spanSign (hn : n.WellFormed) (rest : List Char) :
    spanSign ((if n.negative then ['-'] else []) ++ n.whole ++ rest) =
      (n.negative, n.whole ++ rest) := by
  obtain ⟨c, w, hw, hc⟩ := hn.exists_digit
  cases n.negative with
  | true => rfl
  | false =>
    rw [hw]
    exact spanSign_of_digit hc

theorem WellFormed.run_mantissa (hn : n.WellFormed) {p : Char → Bool}
    (hdigit : ∀ c, c.isDigit = true → p c = true) (hpoint : p '.' = true) (hsign : p '-' = true) :
    Run p n.mantissa := by
  have hrun {s : List Char} (hs : Run Char.isDigit s) : Run p s := fun c hc => hdigit c (hs c hc)
  refine run_append.2 ⟨run_append.2 ⟨?_, hrun hn.whole.2⟩, ?_⟩
  · split
    · exact run_cons.2 ⟨hsign, .nil⟩
    · exact .nil
  · unfold fraction
    split
    · exact .nil
    · exact run_cons.2 ⟨hpoint, hrun hn.places⟩

/-! ## As a decimal -/

theorem readInt_exponent {ds : List Char} (hds : SomeDigits ds) (below : Bool) :
    readInt ((if below then '-' else '+') :: ds) = some (signed below (ofDigits ds)) := by
  have hspan : Text.spanSign ((if below then '-' else '+') :: ds) = (below, ds) := by
    cases below <;> rfl
  have hall : (!ds.isEmpty && ds.all Char.isDigit) = true := by
    rw [Bool.and_eq_true, Bool.not_eq_true', List.isEmpty_eq_false_iff, List.all_eq_true]
    exact hds
  rw [readInt, hspan]
  exact if_pos hall

/-- The text before an exponent ends where the exponent begins. -/
theorem WellFormed.splitWhile_mantissa (hn : n.WellFormed) {s : List Char}
    (hs : Stops (fun c => c != 'e' && c != 'E') s) :
    splitWhile (fun c => c != 'e' && c != 'E') (n.mantissa ++ s) = (n.mantissa, s) := by
  refine splitWhile_eq_iff.2 ⟨hn.run_mantissa (fun c hc => ?_) rfl rfl, rfl, hs⟩
  rw [Bool.and_eq_true, bne_iff_ne, bne_iff_ne]
  exact ⟨ne_of_isDigit hc rfl, ne_of_isDigit hc rfl⟩

theorem WellFormed.splitExponent (hn : n.WellFormed) :
    Decimal.splitExponent n.write = some (n.mantissa, n.shift) := by
  have hstops : Stops (fun c => c != 'e' && c != 'E') n.exponentText := by
    unfold exponentText
    split
    · exact stops_nil
    · exact stops_cons.2 rfl
  have hsplit : splitWhile (fun c => c != 'e' && c != 'E') n.write =
      (n.mantissa, n.exponentText) := hn.splitWhile_mantissa hstops
  unfold Decimal.splitExponent
  rw [hsplit]
  unfold exponentText shift
  cases hexponent : n.exponent with
  | none => rfl
  | some p =>
    obtain ⟨below, ds⟩ := p
    have hds := hn.exponent (below, ds) hexponent
    simp only [readInt_exponent hds, Option.map_some]

theorem filter_digits {ds : List Char} (hds : Run Char.isDigit ds) : ds.filter (· != '_') = ds :=
  List.filter_eq_self.2 fun c hc => bne_iff_ne.2 (ne_of_isDigit (hds c hc) rfl)

theorem WellFormed.splitPoint (hn : n.WellFormed) :
    Decimal.splitPoint n.mantissa =
      ((if n.negative then ['-'] else []) ++ n.whole ++ n.places, n.places.length) := by
  have hrun : Run (· != '.') ((if n.negative then ['-'] else []) ++ n.whole) := by
    refine run_append.2 ⟨?_, fun c hc => bne_iff_ne.2 (ne_of_isDigit (hn.whole.2 c hc) rfl)⟩
    split
    · exact run_cons.2 ⟨rfl, .nil⟩
    · exact .nil
  have hsplit : splitWhile (· != '.') n.mantissa =
      ((if n.negative then ['-'] else []) ++ n.whole, n.fraction) := by
    refine splitWhile_eq_iff.2 ⟨hrun, rfl, ?_⟩
    unfold fraction
    split
    · exact stops_nil
    · exact stops_cons.2 rfl
  unfold Decimal.splitPoint
  rw [hsplit, fraction]
  cases hplaces : n.places with
  | nil => simp
  | cons c ds =>
    have hds := filter_digits hn.places
    rw [hplaces] at hds
    simp only [List.isEmpty_cons, Bool.false_eq_true, if_false, hds]

theorem WellFormed.run_digits (hn : n.WellFormed) : Run Char.isDigit (n.whole ++ n.places) :=
  run_append.2 ⟨hn.whole.2, hn.places⟩

theorem WellFormed.readSigned (hn : n.WellFormed) :
    Decimal.readSigned ((if n.negative then ['-'] else []) ++ n.whole ++ n.places) =
      some (signed n.negative n.significand) := by
  obtain ⟨c, w, hw, hc⟩ := hn.exists_digit
  have hrun := hn.run_digits
  have hhead :
      ((n.whole ++ n.places).isEmpty || (n.whole ++ n.places).head? == some '_') = false := by
    rw [hw]
    simpa using ne_of_isDigit hc rfl
  have hall : ((n.whole ++ n.places).all fun c => c.isDigit || c == '_') = true :=
    List.all_eq_true.2 fun c hc => by rw [hrun c hc, Bool.true_or]
  unfold Decimal.readSigned
  rw [hn.spanSign]
  unfold Decimal.readSeparated
  simp only [hhead, hall, Bool.false_eq_true, if_false, if_true, filter_digits hrun,
    Option.map_some]
  rfl

/-- A numeral is read as the decimal with its digits, if its scale fits a word. -/
theorem WellFormed.decimalRead_write (hn : n.WellFormed) (hscale : fitsWord 64 n.scale = true) :
    Decimal.read n.write = some ⟨signed n.negative n.significand, n.scale⟩ := by
  unfold Decimal.read
  simp only [hn.splitExponent, hn.splitPoint, hn.readSigned, Option.bind_eq_bind, Option.bind_some]
  exact if_pos hscale

/-- An exponent may begin with either letter. -/
theorem WellFormed.decimalRead_capital (hn : n.WellFormed) (s : List Char) :
    Decimal.read (n.mantissa ++ 'E' :: s) = Decimal.read (n.mantissa ++ 'e' :: s) := by
  unfold Decimal.read Decimal.splitExponent
  rw [hn.splitWhile_mantissa (stops_cons.2 rfl), hn.splitWhile_mantissa (stops_cons.2 rfl)]

/-! ## Without an exponent -/

theorem WellFormed.stops_fraction (n : Numeral) : Stops Char.isDigit n.fraction := by
  unfold fraction
  split
  · exact stops_nil
  · exact stops_cons.2 rfl

theorem WellFormed.spanDigits (hn : n.WellFormed) :
    spanDigits (n.whole ++ n.fraction) = (n.whole, n.fraction) :=
  splitWhile_eq_iff.2 ⟨hn.whole.2, rfl, stops_fraction n⟩

/-- A numeral without an exponent. -/
structure Plain (n : Numeral) : Prop extends WellFormed n where
  no_exponent : n.exponent = none

theorem someDigits_of_all {c : Char} {s : List Char} (h : (c :: s).all Char.isDigit = true) :
    SomeDigits (c :: s) := ⟨List.cons_ne_nil c s, run_of_all h⟩

theorem plain_of_digits {whole places : List Char} (negative : Bool) (hwhole : SomeDigits whole)
    (hplaces : Run Char.isDigit places) : (⟨negative, whole, places, none⟩ : Numeral).Plain :=
  ⟨⟨hwhole, hplaces, fun _ h => absurd h (by simp)⟩, rfl⟩

namespace Plain

theorem scale_eq (hn : n.Plain) : n.scale = n.places.length := by
  rw [scale, shift, hn.no_exponent]
  exact sub_zero _

theorem write_eq (hn : n.Plain) :
    n.write = (if n.negative then ['-'] else []) ++ n.whole ++ n.fraction := by
  rw [Numeral.write_eq, exponentText, hn.no_exponent, List.append_nil]
  rfl

/-- A numeral without places is read as an integer, and one with places is not. -/
theorem readInt_write (hn : n.Plain) :
    readInt n.write =
      if n.places = [] then some (signed n.negative (ofDigits n.whole)) else none := by
  rw [hn.write_eq, readInt, hn.toWellFormed.spanSign]
  dsimp only
  obtain ⟨c, w, hw, hc⟩ := hn.toWellFormed.exists_digit
  by_cases hplaces : n.places = []
  · have hall : n.whole.all Char.isDigit = true := List.all_eq_true.2 hn.whole.2
    have hne : n.whole.isEmpty = false := by rw [hw]; rfl
    rw [fraction, hplaces, List.isEmpty_nil, if_pos rfl, List.append_nil, hall, hne]
    rfl
  · have hall : (n.whole ++ n.fraction).all Char.isDigit = false := by
      rw [fraction, if_neg (by simpa using hplaces), List.all_append, List.all_cons]
      simp [Char.isDigit]
    rw [hall, Bool.and_false, if_neg hplaces]
    rfl

/-- A numeral is read as the float that is nearest to its digits. -/
theorem binaryRead_write {f : Format} (hn : n.Plain) :
    (Binary.read n.write : Option (Binary f)) =
      some (Binary.ofScientific n.negative n.significand (-n.places.length)) := by
  obtain ⟨c, w, hw, hc⟩ := hn.toWellFormed.exists_digit
  have hword : (Binary.ofWord? n.negative (n.whole ++ n.fraction) : Option (Binary f)) = none := by
    rw [hw]
    exact Binary.ofWord?_eq_none hc
  have hne : n.whole.isEmpty = false := by rw [hw]; rfl
  unfold Binary.read
  rw [hn.write_eq, hn.toWellFormed.spanSign]
  simp only [hword, hn.toWellFormed.spanDigits]
  unfold fraction
  cases hplaces : n.places with
  | nil =>
    simp only [List.isEmpty_nil, if_true, hne, Bool.false_and, Bool.false_eq_true, if_false,
      Binary.readExponent, Option.map_some]
    rw [significand, hplaces]
    rfl
  | cons d ds =>
    have hrun := hn.places
    rw [hplaces] at hrun
    have hspan : Text.spanDigits (d :: ds) = (d :: ds, []) :=
      splitWhile_eq_iff.2 ⟨hrun, (List.append_nil _).symm, stops_nil⟩
    simp only [List.isEmpty_cons, Bool.false_eq_true, if_false, hspan, hne, Bool.false_and,
      Binary.readExponent, Option.map_some]
    rw [significand, hplaces, zero_sub]

end Plain

end Numeral

/-! ## As a document -/

theorem skipSpace_of_not {c : Char} {s : List Char} (h : isSpace c = false) :
    skipSpace (c :: s) = c :: s :=
  List.dropWhile_cons_of_neg (by rw [h]; nofun)

theorem ne_of_begins {c d : Char} (hc : c = '-' ∨ c.isDigit = true) (hd : d.isDigit = false)
    (hd' : d ≠ '-') : c ≠ d := by
  rintro rfl
  rcases hc with h | h
  · exact hd' h
  · rw [h] at hd
    cases hd

theorem isSpace_of_begins {c : Char} (hc : c = '-' ∨ c.isDigit = true) : isSpace c = false := by
  simp [isSpace, ne_of_begins hc (d := ' ') rfl (by decide),
    ne_of_begins hc (d := '\t') rfl (by decide), ne_of_begins hc (d := '\n') rfl (by decide),
    ne_of_begins hc (d := '\r') rfl (by decide)]

/-- What begins like a number is read as a numeral. -/
theorem readScalar_numeral {c : Char} {s : List Char} (hc : c = '-' ∨ c.isDigit = true) :
    readScalar (c :: s) =
      (Numeral.read (c :: s)).map fun (n, rest) => (.number n, rest) := by
  unfold readScalar
  split
  · next heq => exact absurd (List.cons.inj heq).1 (ne_of_begins hc rfl (by decide))
  · next heq => exact absurd (List.cons.inj heq).1 (ne_of_begins hc rfl (by decide))
  · next heq => exact absurd (List.cons.inj heq).1 (ne_of_begins hc rfl (by decide))
  · next heq => exact absurd (List.cons.inj heq).1 (ne_of_begins hc rfl (by decide))
  · rfl

theorem readValue_numeral {c : Char} {s : List Char} (hc : c = '-' ∨ c.isDigit = true) :
    Raw.readValue (c :: s) =
      ((Numeral.read (c :: s)).map fun (n, rest) => (.number n, rest)).bind (taken? (c :: s)) := by
  have hspace := skipSpace_of_not (s := s) (isSpace_of_begins hc)
  rw [← readScalar_numeral hc, Raw.readValue]
  split
  · next heq =>
    rw [hspace] at heq
    exact absurd (List.cons.inj heq).1 (ne_of_begins hc rfl (by decide))
  · next heq =>
    rw [hspace] at heq
    exact absurd (List.cons.inj heq).1 (ne_of_begins hc rfl (by decide))
  · rw [hspace]

/-- Digits before the point without a needless zero. -/
def Numeral.Strict (n : Numeral) : Prop := n.whole = ['0'] ∨ n.whole.head? ≠ some '0'

/-- A character with which a numeral could go on. -/
def Numeral.goesOn (c : Char) : Bool := c.isDigit || c == '.' || c == 'e' || c == 'E'

theorem Numeral.goesOn_eq_false_iff {c : Char} :
    goesOn c = false ↔ c.isDigit = false ∧ c ≠ '.' ∧ c ≠ 'e' ∧ c ≠ 'E' := by
  simp only [goesOn, Bool.or_eq_false_iff, beq_eq_false_iff_ne, and_assoc]

theorem Numeral.stops_exponentText (n : Numeral) {p : Char → Bool} {rest : List Char}
    (hrest : Stops goesOn rest) (hp : ∀ c, goesOn c = false → p c = false) (he : p 'e' = false) :
    Stops p (n.exponentText ++ rest) := by
  unfold exponentText
  split
  · exact fun c hc => hp c (hrest c hc)
  · exact stops_cons.2 he

namespace Numeral.WellFormed

variable {n : Numeral} {rest : List Char}

theorem read_eq (hn : n.WellFormed) (rest : List Char) :
    Numeral.read (n.write ++ rest) = (do
      let (whole, s) ← wholePart (n.whole ++ (n.fraction ++ (n.exponentText ++ rest)))
      let (places, s) ← placesPart s
      let (exponent, s) ← exponentPart s
      some (⟨n.negative, whole, places, exponent⟩, s)) := by
  obtain ⟨c, w, hw, hc⟩ := hn.exists_digit
  simp only [write_eq, mantissa, hw, List.append_assoc, List.cons_append]
  cases n.negative with
  | true => rfl
  | false =>
    unfold Numeral.read
    split
    · next heq =>
      split at heq
      · next h => exact absurd (List.cons.inj h).1 (ne_of_isDigit hc rfl)
      · cases heq
        rfl

theorem wholePart_append (hn : n.WellFormed) (hrest : Stops Char.isDigit rest) :
    (n.Strict → wholePart (n.whole ++ rest) = some (n.whole, rest)) ∧
      (¬ n.Strict → wholePart (n.whole ++ rest) = none) := by
  obtain ⟨c, w, hw, -⟩ := hn.exists_digit
  have hspan : Text.spanDigits (n.whole ++ rest) = (n.whole, rest) :=
    splitWhile_eq_iff.2 ⟨hn.whole.2, rfl, hrest⟩
  unfold wholePart
  rw [hspan, Strict, hw]
  by_cases hc : c = '0'
  · subst hc
    cases w with
    | nil => exact ⟨fun _ => rfl, fun h => absurd (.inl rfl) h⟩
    | cons d w => exact ⟨fun h => by simp at h, fun _ => rfl⟩
  · refine ⟨fun _ => ?_, fun h => absurd (.inr fun heq => hc (Option.some.inj heq)) h⟩
    split
    · next heq => cases heq
    · next heq => exact absurd (List.cons.inj (Prod.mk.inj heq).1).1 hc
    · next heq =>
      obtain ⟨rfl, rfl⟩ := Prod.mk.inj heq
      rfl

theorem placesPart_append (hn : n.WellFormed) (hdigit : Stops Char.isDigit rest)
    (hpoint : Stops (· == '.') rest) : placesPart (n.fraction ++ rest) = some (n.places, rest) := by
  unfold Numeral.fraction
  cases hplaces : n.places with
  | nil =>
    rw [List.isEmpty_nil, if_pos rfl, List.nil_append]
    unfold placesPart
    split
    · exact absurd (stops_cons.1 hpoint) (by decide)
    · rfl
  | cons c ds =>
    have hrun := hn.places
    rw [hplaces] at hrun
    have hspan : Text.spanDigits (c :: ds ++ rest) = (c :: ds, rest) :=
      splitWhile_eq_iff.2 ⟨hrun, rfl, hdigit⟩
    rw [List.isEmpty_cons, if_neg Bool.false_ne_true, List.cons_append, placesPart, hspan]
    rfl

theorem exponentPart_append (hn : n.WellFormed) (hrest : Stops goesOn rest) :
    exponentPart (n.exponentText ++ rest) = some (n.exponent, rest) := by
  unfold exponentText
  cases hexponent : n.exponent with
  | none =>
    cases rest with
    | nil => rfl
    | cons c s =>
      obtain ⟨-, -, he, hE⟩ := goesOn_eq_false_iff.1 (stops_cons.1 hrest)
      exact if_neg (not_or.2 ⟨he, hE⟩)
  | some p =>
    obtain ⟨negative, ds⟩ := p
    obtain ⟨hne, hrun⟩ := hn.exponent (negative, ds) hexponent
    have hstops : Stops Char.isDigit rest := fun c hc => (goesOn_eq_false_iff.1 (hrest c hc)).1
    have hspan : Text.spanDigits (ds ++ rest) = (ds, rest) :=
      splitWhile_eq_iff.2 ⟨hrun, rfl, hstops⟩
    have hsign : Text.spanSign ((if negative then '-' else '+') :: (ds ++ rest)) =
        (negative, ds ++ rest) := by
      cases negative <;> rfl
    have hempty : ds.isEmpty = false := List.isEmpty_eq_false_iff.2 hne
    simp only [List.cons_append, exponentPart, true_or, if_true, hsign, hspan, hempty,
      Bool.false_eq_true, if_false]

/-- The text of a numeral is read as that numeral before anything with which it could not go on,
unless it has a needless zero. -/
theorem read_append (hn : n.WellFormed) (hrest : Stops goesOn rest) :
    (n.Strict → Numeral.read (n.write ++ rest) = some (n, rest)) ∧
      (¬ n.Strict → Numeral.read (n.write ++ rest) = none) := by
  have hdigit : Stops Char.isDigit (n.exponentText ++ rest) :=
    n.stops_exponentText hrest (fun c hc => (goesOn_eq_false_iff.1 hc).1) rfl
  have hpoint : Stops (· == '.') (n.exponentText ++ rest) :=
    n.stops_exponentText hrest
      (fun c hc => beq_eq_false_iff_ne.2 (goesOn_eq_false_iff.1 hc).2.1) rfl
  have hfraction : Stops Char.isDigit (n.fraction ++ (n.exponentText ++ rest)) := by
    unfold fraction
    split
    · exact hdigit
    · exact stops_cons.2 rfl
  obtain ⟨hstrict, hneedless⟩ := hn.wholePart_append hfraction
  rw [hn.read_eq]
  constructor
  · intro h
    simp only [hstrict h, hn.placesPart_append hdigit hpoint, hn.exponentPart_append hrest,
      Option.bind_eq_bind, Option.bind_some]
  · intro h
    rw [hneedless h]
    rfl

end Numeral.WellFormed

/-- **A numeral is a document that is the number it is read as**, unless it has a needless zero. -/
theorem Numeral.Plain.jsonRead_write {n : Numeral} {j : Json} (hn : n.Plain) :
    Json.read n.write = some j ↔ n.Strict ∧ (Number.ofNumeral n).map Json.number = some j := by
  obtain ⟨d, s, hs, hd⟩ := hn.toWellFormed.exists_head
  have hvalue := readValue_numeral (s := s) hd
  rw [← hs] at hvalue
  obtain ⟨hstrict, hneedless⟩ := hn.toWellFormed.read_append stops_nil
  rw [List.append_nil] at hstrict hneedless
  rw [Json.read, Raw.read, hvalue]
  by_cases h : n.Strict
  · have htaken : taken? n.write (Raw.number n, []) = some ⟨.number n, [], by rw [hs]; simp⟩ :=
      dif_pos _
    rw [hstrict h, Option.map_some, Option.bind_some, htaken]
    simp only [Option.bind_eq_bind, Option.bind_some, skipSpace, List.dropWhile_nil,
      List.isEmpty_nil, if_true, ofRaw, h, true_and]
  · rw [hneedless h]
    simp only [Option.map_none, Option.bind_none, Option.bind_eq_bind, h, false_and, reduceCtorEq]

end RecordFilter.Json

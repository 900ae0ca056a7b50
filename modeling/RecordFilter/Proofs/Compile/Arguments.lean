import RecordFilter.Proofs.Compile.Numbers

/-!
# What arguments become

Which arguments have the form of a kind (`Kind.OwnForm`) and which value such an argument says
(`Kind.Says`) is told without the readers of numbers: an integer is the number that its digits make,
whatever zeros they begin with, and has no point; a decimal is the number with its places.

Coercion gives just these values, in the order of the arguments, and passes over arguments of other
forms. It fails for the first argument of the form of the kind that says no value of it
(`coerce_exact`).
-/

namespace RecordFilter

open RecordFilter.Filter RecordFilter.Number RecordFilter.Json RecordFilter.Calendar Text

/-! ## Forms and values -/

/-- The number that a numeral stands for, with its sign. -/
def Json.Numeral.number (n : Numeral) : ℚ := if n.negative then -n.magnitude else n.magnitude

/-- The number that a text says. -/
def writtenNumber (s : List Char) : ℚ := (Numeral.ofText s).number

namespace Kind

/-- The form of the arguments that a kind takes. -/
inductive OwnForm : Kind → Literal → Prop
  | quoted (text : String) : OwnForm string (.quoted text)
  | bare (text : String) : OwnForm string (.bare text)
  | date (text : String) : OwnForm dateTime (.date text)
  | number {k : Kind} (hk : k.isNumeric = true) (text : String) : OwnForm k (.number text)

/-- The value of a kind that an argument says: a text without its quotes, an integer that is written
without a point and that the kind holds, a decimal number, or a point in time. -/
inductive Says : Kind → Literal → Value → Prop
  | quoted (text : String) :
      Says string (.quoted text) (.string (String.ofList (unquote text.toList)))
  | bare (text : String) : Says string (.bare text) (.string text)
  | integer {k : Kind} {text : String} {v : Value} {i : ℤ} (hk : k.isInteger = true)
      (hpoint : '.' ∉ text.toList) (hi : writtenNumber text.toList = i) (hkind : v.kind = k)
      (hv : v.toInt? = some i) : Says k (.number text) v
  | decimal {text : String} {d : Decimal} (hd : d.value = writtenNumber text.toList) :
      Says decimal (.number text) (.decimal d)
  | date {text : String} {t : DateTime} (ht : Timestamp.read text.toList = some t) :
      Says dateTime (.date text) (.dateTime t)

variable {k : Kind} {l : Literal} {v : Value}

theorem fits_iff : k.fits l = true ↔ k.OwnForm l := by
  constructor
  · intro h
    cases l with
    | quoted text =>
      cases k with
      | string => exact .quoted text
      | _ => cases h
    | bare text =>
      cases k with
      | string => exact .bare text
      | _ => cases h
    | date text =>
      cases k with
      | dateTime => exact .date text
      | _ => cases h
    | number text => exact .number (by cases k <;> exact h) text
  · rintro (text | text | text | ⟨hk, text⟩)
    · rfl
    · rfl
    · rfl
    · cases k <;> exact hk

instance (k : Kind) : DecidablePred k.OwnForm := fun _ => decidable_of_iff _ fits_iff

/-- What an argument says is of the kind. -/
theorem Says.kind (h : k.Says l v) : v.kind = k := by
  cases h with
  | integer _ _ _ hkind _ => exact hkind
  | _ => rfl

end Kind

/-! ## Numbers -/

section Numbers

variable {k : Kind} {n : Numeral} {v : Value} {text : String}

theorem Json.Numeral.Plain.writtenNumber_write (hn : n.Plain) :
    writtenNumber n.write = n.number := by
  rw [writtenNumber, hn.ofText_write]

/-- A number without a point has no places. -/
theorem Json.Numeral.Plain.point_not_mem_iff (hn : n.Plain) : '.' ∉ n.write ↔ n.places = [] := by
  have hwhole : '.' ∉ n.whole := fun h => by cases hn.whole.2 '.' h
  have hsign : '.' ∉ (if n.negative then ['-'] else []) := by
    split <;> decide
  rw [hn.write_eq, List.mem_append, List.mem_append, not_or, not_or, Numeral.fraction]
  cases n.places <;> simp [hwhole, hsign]

/-- The integer that a number without places is. -/
theorem Json.Numeral.Plain.number_of_no_places (hn : n.Plain) (hplaces : n.places = []) :
    n.number = signed n.negative (ofDigits n.whole) := by
  rw [Numeral.number, magnitude_of_no_places hn hplaces]
  cases n.negative <;> simp [signed]

theorem Json.Numeral.value_signed (n : Numeral) :
    (⟨signed n.negative n.significand, n.scale⟩ : Decimal).value = n.number := by
  rw [Decimal.value, Numeral.number, Numeral.magnitude]
  cases n.negative <;> simp [signed]

/-- **An integer argument is read as the integer that it says.** -/
theorem Kind.ofText_eq_some_iff_of_isInteger (hk : k.isInteger = true)
    (htext : IsNumber text.toList) :
    k.ofText text.toList = some v ↔ k.Says (.number text) v := by
  obtain ⟨n, hn, hwrite⟩ := htext.exists_plain
  rw [Kind.ofText_integer hk, Option.bind_eq_some_iff]
  simp only [Kind.ofInt?_eq_some_iff hk, ← hwrite, hn.readInt_write]
  constructor
  · rintro ⟨i, hi, hkind, hv⟩
    split at hi
    · next hplaces =>
      obtain rfl := Option.some.inj hi
      refine .integer hk ?_ ?_ hkind hv
      · rw [← hwrite]
        exact hn.point_not_mem_iff.2 hplaces
      · rw [← hwrite, hn.writtenNumber_write, hn.number_of_no_places hplaces]
    · cases hi
  · intro h
    cases h with
    | @integer _ _ _ i _ hpoint hi hkind hv =>
      rw [← hwrite] at hpoint hi
      have hplaces := hn.point_not_mem_iff.1 hpoint
      rw [hn.writtenNumber_write, hn.number_of_no_places hplaces, Int.cast_inj] at hi
      exact ⟨i, by rw [if_pos hplaces, hi], hkind, hv⟩
    | decimal => cases hk

/-- **A number is an integer argument exactly if it has no point and the kind holds it.** -/
theorem Kind.exists_says_integer_iff (hk : k.isInteger = true) :
    (∃ v, k.Says (.number text) v) ↔
      '.' ∉ text.toList ∧ ∃ i : ℤ, writtenNumber text.toList = i ∧ k.InRange i := by
  constructor
  · rintro ⟨v, hv⟩
    cases hv with
    | integer _ hpoint hi hkind hv =>
      exact ⟨hpoint, _, hi, hkind ▸ Kind.inRange_of_toInt? hv⟩
    | decimal => cases hk
  · rintro ⟨hpoint, i, hi, hrange⟩
    obtain ⟨hkind, hv⟩ := Kind.ofInt_spec hk hrange
    exact ⟨_, .integer hk hpoint hi hkind hv⟩

/-- A decimal argument is read as the decimal number that it says. -/
theorem Kind.exists_ofText_decimal (htext : IsNumber text.toList)
    (hlength : text.toList.length < 2 ^ 63) :
    ∃ d : Decimal, decimal.ofText text.toList = some (.decimal d) ∧
      d.value = writtenNumber text.toList := by
  obtain ⟨n, hn, hwrite⟩ := htext.exists_plain
  rw [← hwrite] at hlength ⊢
  refine ⟨_, by rw [Kind.ofText, decimalRead_eq hn hlength]; rfl, ?_⟩
  rw [hn.writtenNumber_write, n.value_signed]

/-- A sign is that of the number, and zeros at the head of its digits do not count. -/
theorem writtenNumber_zeros {s : List Char} (hs : IsNumber s) (hsign : s.head? ≠ some '-')
    (negative : Bool) (m : ℕ) :
    writtenNumber ((if negative then ['-'] else []) ++ List.replicate m '0' ++ s) =
      if negative then -writtenNumber s else writtenNumber s := by
  obtain ⟨n, hn, rfl⟩ := hs.exists_plain
  have hpositive : n.negative = false := by
    cases hnegative : n.negative with
    | false => rfl
    | true =>
      rw [hn.write_eq, hnegative] at hsign
      exact absurd rfl hsign
  let padded : Numeral := ⟨negative, List.replicate m '0' ++ n.whole, n.places, none⟩
  have hpadded : padded.Plain :=
    Numeral.plain_of_digits negative
      ⟨by simp [hn.whole.1], run_append.2 ⟨run_zeros m, hn.whole.2⟩⟩ hn.places
  have htext : (if negative then ['-'] else []) ++ List.replicate m '0' ++ n.write =
      padded.write := by
    rw [hn.write_eq, hpadded.write_eq, hpositive]
    simp [padded, Numeral.fraction]
  have hvalue : padded.magnitude = n.magnitude := by
    rw [hpadded.magnitude_eq, hn.magnitude_eq, Numeral.significand, Numeral.significand,
      List.append_assoc, ofDigits_zeros_append]
  rw [htext, hpadded.writtenNumber_write, hn.writtenNumber_write, Numeral.number, Numeral.number,
    hvalue, hpositive]
  rfl

end Numbers

/-! ## Lists of arguments -/

namespace Kind

variable {k : Kind} {l : Literal} {v : Value} {ls : List Literal} {vs : List Value}

/-- The kinds that say a value of each of their arguments, or none; floats are rounded. -/
def isExact : Kind → Bool
  | string | int16 | int32 | int64 | decimal | dateTime => true
  | _ => false

theorem takesArguments_of_isExact (hk : k.isExact = true) : k.takesArguments = true := by
  cases k <;> first | rfl | cases hk

section

variable (hk : k.isExact = true) (hform : k.OwnForm l) (hl : l.Matches)
  (hlength : k = decimal → l.text.toList.length < 2 ^ 63)
include hk hform hl hlength

/-- The value of an argument that has the form of the kind is one that it says. -/
theorem says_of_ofText (h : k.ofText (content l) = some v) : k.Says l v := by
  cases hform with
  | quoted text =>
    obtain rfl := Option.some.inj h
    exact .quoted text
  | bare text =>
    have hv : Value.string (String.ofList text.toList) = v := Option.some.inj h
    rw [String.ofList_toList] at hv
    exact hv ▸ .bare text
  | date text =>
    obtain ⟨t, ht, rfl⟩ := Option.map_eq_some_iff.1 h
    exact .date ht
  | number hnumeric text =>
    cases k with
    | int16 | int32 | int64 => exact (Kind.ofText_eq_some_iff_of_isInteger rfl hl).1 h
    | decimal =>
      obtain ⟨d, hread, hd⟩ := Kind.exists_ofText_decimal hl (hlength rfl)
      obtain rfl := Option.some.inj (hread.symm.trans h)
      exact .decimal hd
    | float32 | float64 => cases hk
    | _ => cases hnumeric

/-- An argument of the form of the kind has a value exactly if it says one. -/
theorem represents_iff : k.Represents l ↔ ∃ v, k.Says l v := by
  refine ⟨fun ⟨v, hv⟩ => ⟨v, says_of_ofText hk hform hl hlength hv⟩, fun ⟨v, hv⟩ => ?_⟩
  cases hv with
  | quoted text => exact ⟨_, rfl⟩
  | bare text => exact ⟨_, rfl⟩
  | integer hinteger hpoint hi hkind hv =>
    exact ⟨v, (Kind.ofText_eq_some_iff_of_isInteger hinteger hl).2
      (.integer hinteger hpoint hi hkind hv)⟩
  | decimal hd =>
    obtain ⟨d, hread, -⟩ := Kind.exists_ofText_decimal hl (hlength rfl)
    exact ⟨_, hread⟩
  | date ht => exact ⟨_, congrArg (Option.map Value.dateTime) ht⟩

end

/-- The arguments of the form of the kind are those that coercion keeps. -/
theorem filter_ownForm (k : Kind) (ls : List Literal) :
    ls.filter (k.OwnForm ·) = ls.filter k.fits := by
  refine List.filter_congr fun l _ => ?_
  rw [Bool.eq_iff_iff, decide_eq_true_iff, fits_iff]

end Kind

/-- The values of a list of arguments in two parts are those of the parts, one behind the other;
what fails in the first part counts before what fails in the second. -/
theorem coerce_append (k : Kind) (ls more : List Literal) :
    coerce k (ls ++ more) = do
      let vs ← coerce k ls
      let ws ← coerce k more
      return Option.map₂ (· ++ ·) vs ws := by
  unfold coerce
  rw [List.filter_append, List.mapM_append]
  cases k.takesArguments with
  | false => rfl
  | true =>
    simp only [if_true]
    cases (ls.filter k.fits).mapM k.ofLiteral with
    | error _ => rfl
    | ok vs =>
      cases (more.filter k.fits).mapM k.ofLiteral with
      | error _ => rfl
      | ok ws => rfl

/-- **Coercion is exact, keeps the order and reinterprets nothing.** It fails exactly for the first
argument of the form of the kind that says no value of it, and names that argument. Otherwise it
gives what the arguments of that form say, one value of the kind for each and in their order, so
more arguments are more values behind these. An integer argument says a value if it has no point and
its integer is in the range of the kind; a decimal argument always says one. A sign negates the
number that an argument says, and zeros at the head of its digits do not change it. -/
theorem coerce_exact {k : Kind} (hk : k.isExact = true) {ls : List Literal}
    (hls : ∀ l ∈ ls, l.Matches)
    (hlength : k = .decimal → ∀ l ∈ ls, l.text.toList.length < 2 ^ 63) :
    (∀ err, coerce k ls = .error err ↔
      ∃ before l after, ls = before ++ l :: after ∧
        (∀ b ∈ before, k.OwnForm b → ∃ v, k.Says b v) ∧
        k.OwnForm l ∧ (¬ ∃ v, k.Says l v) ∧ err = ⟨l.text, k⟩) ∧
    ((∀ l ∈ ls, k.OwnForm l → ∃ v, k.Says l v) →
      ∃ vs, coerce k ls = .ok (some vs) ∧
        List.Forall₂ (fun l v => k.Says l v ∧ v.kind = k) (ls.filter (k.OwnForm ·)) vs) ∧
    (∀ more, coerce k (ls ++ more) = do
      let vs ← coerce k ls
      let ws ← coerce k more
      return Option.map₂ (· ++ ·) vs ws) ∧
    (k.isInteger = true → ∀ text, (∃ v, k.Says (.number text) v) ↔
      '.' ∉ text.toList ∧ ∃ i : ℤ, writtenNumber text.toList = i ∧ k.InRange i) ∧
    (k = .decimal → ∀ text, ∃ v, k.Says (.number text) v) ∧
    ∀ s (negative : Bool) (m : ℕ), IsNumber s → s.head? ≠ some '-' →
      writtenNumber ((if negative then ['-'] else []) ++ List.replicate m '0' ++ s) =
        if negative then -writtenNumber s else writtenNumber s := by
  have htakes := Kind.takesArguments_of_isExact hk
  have hvalue : ∀ l ∈ ls, k.OwnForm l → (k.Represents l ↔ ∃ v, k.Says l v) := fun l hl hform =>
    Kind.represents_iff hk hform (hls l hl) fun hdecimal => hlength hdecimal l hl
  refine ⟨fun err => ?_, fun hall => ?_, coerce_append k ls, fun hinteger text =>
    Kind.exists_says_integer_iff hinteger, ?_, fun s negative m hs hsign =>
    writtenNumber_zeros hs hsign negative m⟩
  · rw [coerce_eq_error_iff htakes]
    refine exists_congr fun before => exists_congr fun l => exists_congr fun after =>
      and_congr_right fun hsplit => ?_
    have hbefore : ∀ b ∈ before, b ∈ ls := fun b hb => hsplit ▸ List.mem_append_left _ hb
    have hl : l ∈ ls := hsplit ▸ List.mem_append_right _ List.mem_cons_self
    simp only [Kind.fits_iff]
    refine and_congr ?_ (and_congr_right fun hform => by rw [hvalue l hl hform])
    exact forall₂_congr fun b hb => imp_congr_right fun hform => hvalue b (hbefore b hb) hform
  · obtain ⟨vs, hvs⟩ := (exists_coerce_iff htakes).2 fun l hl hfits => by
      have hform := Kind.fits_iff.1 hfits
      exact (hvalue l hl hform).2 (hall l hl hform)
    have hread := (coerce_eq_ok_iff htakes).1 hvs
    rw [← Kind.filter_ownForm] at hread
    have hmem : ∀ l ∈ ls.filter (k.OwnForm ·), l ∈ ls ∧ k.OwnForm l := fun l hl =>
      ⟨(List.mem_filter.1 hl).1, of_decide_eq_true (List.mem_filter.1 hl).2⟩
    refine ⟨vs, hvs, List.Forall₂.imp ?_ ((List.forall₂_and_left _ _).2 ⟨hmem, hread⟩)⟩
    rintro l v ⟨⟨hl, hform⟩, hv⟩
    have hsaid := Kind.says_of_ofText hk hform (hls l hl) (fun hdecimal => hlength hdecimal l hl) hv
    exact ⟨hsaid, hsaid.kind⟩
  · rintro rfl text
    exact ⟨_, .decimal (Numeral.ofText text.toList).value_signed⟩

/-- The least integer of sixteen bits with zeros before its digits, a date that is passed over, and
a number that is refused for its point. -/
theorem coerce_exact_least_and_point :
    let least : Literal := .number "-00032768"
    let ls : List Literal := [least, .date "2017-01-01", .number "7.0", .number "40000"]
    Kind.int16.isExact = true ∧ (∀ l ∈ ls, l.Matches) ∧
      coerce .int16 ls = .error ⟨"7.0", .int16⟩ ∧
      coerce .int16 [least] = .ok (some [.int16 (.ofInt (-32768))]) := by
  intro least ls
  have hmatches : ∀ l ∈ ls, l.Matches :=
    List.forall_mem_cons.2 ⟨isNumber_iff.1 rfl, List.forall_mem_cons.2 ⟨isDate_iff.1 rfl,
      List.forall_mem_cons.2 ⟨isNumber_iff.1 rfl,
        List.forall_mem_singleton.2 (isNumber_iff.1 rfl)⟩⟩⟩
  have hinteger : readInt (Kind.content least) = some (-32768) := by decide
  have hread : Kind.int16.ofText (Kind.content least) = some (.int16 (.ofInt (-32768))) := by
    rw [Kind.ofText_integer rfl, hinteger]
    exact Kind.ofInt?_of_inRange (k := .int16) (by decide)
  have hleast : Kind.int16.Says least (.int16 (.ofInt (-32768))) :=
    (Kind.ofText_eq_some_iff_of_isInteger rfl (isNumber_iff.1 rfl)).1 hread
  obtain ⟨herror, -, -, hsaid, -⟩ := coerce_exact (k := .int16) rfl hmatches nofun
  have hpoint : ¬ ∃ v, Kind.int16.Says (.number "7.0") v := fun h =>
    ((hsaid rfl _).1 h).1 (by decide)
  refine ⟨rfl, hmatches, (herror _).2 ⟨[least, .date "2017-01-01"], .number "7.0",
    [.number "40000"], rfl, ?_, .number rfl _, hpoint, rfl⟩,
    (coerce_eq_ok_iff rfl).2 (.cons hread .nil)⟩
  exact List.forall_mem_cons.2 ⟨fun _ => ⟨_, hleast⟩, List.forall_mem_singleton.2 nofun⟩

end RecordFilter

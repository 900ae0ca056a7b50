import RecordFilter.Proofs.Compile.Failure
import RecordFilter.Proofs.Compile.Quoted
import RecordFilter.Proofs.Compile.WellTyped
import RecordFilter.Proofs.Json.Members
import RecordFilter.Proofs.Json.Written
import RecordFilter.Proofs.Number.Twice
import RecordFilter.Proofs.Value.Comparing
import RecordFilter.Proofs.Value.Integers

/-!
# Numbers in filters and in documents

The text of a number can be an argument of a filter and a number of a document. An argument is read
for the kind of its property at once, while a document first keeps an integer or a double, and only
that is made a value of the kind.

## Where the readings differ

* Minus zero is kept as a double, so it is no integer of a document.
* A single is rounded twice in a document. The second rounding is the wrong one only if the double
  lies midway between two singles and the number does not (`binaryRead_convert`).
* A decimal has the shortest digits of the double. They are the digits of the number if these are
  few and the double has all its bits (`magnitude_of_few_digits`).

In all other cases the values are equal, if the document has kept the nearest double
(`number_means_one_value`). There is a number for each of the three differences
(`number_means_two_values`).
-/

namespace RecordFilter

open RecordFilter.Filter RecordFilter.Number RecordFilter.Json Text

/-! ## The numeral of a number -/

/-- The sign and the digits of a number. -/
def Json.Numeral.ofText (s : List Char) : Numeral :=
  let (negative, body) := spanSign s
  let (whole, rest) := spanDigits body
  ⟨negative, whole, rest.drop 1, none⟩

theorem Json.Numeral.Plain.ofText_write {n : Numeral} (hn : n.Plain) :
    Numeral.ofText n.write = n := by
  have hplaces : n.fraction.drop 1 = n.places := by
    unfold Numeral.fraction
    cases n.places <;> rfl
  unfold Numeral.ofText
  rw [hn.write_eq, hn.toWellFormed.spanSign]
  dsimp only
  rw [hn.toWellFormed.spanDigits]
  dsimp only
  rw [hplaces, ← hn.no_exponent]

/-- A number is the text of a numeral without an exponent. -/
theorem Filter.IsNumber.exists_plain {s : List Char} (h : IsNumber s) :
    ∃ n : Numeral, n.Plain ∧ n.write = s := by
  obtain ⟨sign, whole, fraction, rfl, hsign, hwhole, hfraction⟩ := h
  have hplaces : ∃ places, Run Char.isDigit places ∧
      fraction = if places.isEmpty then [] else '.' :: places := by
    rcases hfraction with rfl | ⟨places, rfl, hne, hrun⟩
    · exact ⟨[], .nil, rfl⟩
    · exact ⟨places, hrun, by rw [if_neg (by simpa using hne)]⟩
  obtain ⟨places, hrun, rfl⟩ := hplaces
  rcases hsign with rfl | rfl
  · exact ⟨_, Numeral.plain_of_digits false hwhole hrun, List.append_nil _⟩
  · exact ⟨_, Numeral.plain_of_digits true hwhole hrun, List.append_nil _⟩

/-! ## Arguments -/

variable {k : Kind} {n : Numeral} {j : Json.Number} {v w : Value}

/-- A number is an argument of every numeric kind. -/
theorem coerce_number (hk : k.isNumeric = true) (s : List Char) :
    coerce k [.number (String.ofList s)] = .ok (some [v]) ↔ k.ofText s = some v := by
  have htakes : k.takesArguments = true := by
    cases k <;> first | rfl | cases hk
  have hfits : [Literal.number (String.ofList s)].filter k.fits = [.number (String.ofList s)] := by
    have hfit : k.fits (.number (String.ofList s)) = true := by
      cases k <;> first | rfl | cases hk
    rw [List.filter_cons_of_pos hfit, List.filter_nil]
  have hcontent : Kind.content (.number (String.ofList s)) = s := String.toList_ofList
  rw [coerce_eq_ok_iff htakes, hfits, List.forall₂_cons, hcontent]
  exact and_iff_left .nil

/-! ## Integers -/

/-- A kind of integers reads an integer and looks for its value. -/
theorem Kind.ofText_integer (hk : k.isInteger = true) (s : List Char) :
    k.ofText s = (readInt s).bind k.ofInt? := by
  have hread : k.ofText s = (readInteger k.bits s).map k.ofInt := by
    cases k <;> first | rfl | cases hk
  rw [hread, readInteger]
  cases readInt s with
  | none => rfl
  | some i =>
    simp only [Option.bind_some, Kind.ofInt?]
    cases fitsWord k.bits i <;> rfl

theorem eq_zero_of_digitValue {c : Char} (hc : c.isDigit = true) (h : digitValue c = 0) :
    c = '0' := by
  simp only [Char.isDigit, Bool.and_eq_true, decide_eq_true_eq] at hc
  have hge : 48 ≤ c.toNat := UInt32.le_iff_toNat_le.1 hc.1
  have hle : c.toNat ≤ 48 := Nat.sub_eq_zero_iff_le.1 h
  exact Char.toNat_inj.1 (le_antisymm hle hge)

/-- Minus zero is the one text of an integer with a sign and no value above zero. -/
theorem Json.Numeral.Plain.eq_minus_zero (hn : n.Plain) (hstrict : n.Strict)
    (hplaces : n.places = []) (hnegative : n.negative = true) (hzero : ofDigits n.whole = 0) :
    n.write = ['-', '0'] := by
  have hwhole : n.whole = ['0'] := by
    refine hstrict.resolve_right fun hne => ?_
    obtain ⟨c, w, hw, hc⟩ := hn.toWellFormed.exists_digit
    have hvalue : digitValue c ≤ ofDigits n.whole := by
      rw [hw]
      exact le_trans (by omega) (le_continued (n := 10 * 0 + digitValue c))
    exact hne (by rw [hw, eq_zero_of_digitValue hc (by omega)]; rfl)
  rw [hn.write_eq, hnegative, hwhole, Numeral.fraction, hplaces]
  rfl

/-- **The integers of a text**: an argument and a document are read as the same one. -/
theorem readInt_iff {i : ℤ} (hn : n.Plain) (hj : Json.Number.ofNumeral n = some j)
    (hstrict : n.Strict) (hne : n.write ≠ ['-', '0']) (hfits : fitsWord 64 i = true) :
    readInt n.write = some i ↔ j.toInt? = some i := by
  rw [Json.Number.toInt?_eq_some, hn.readInt_write]
  constructor
  · intro hi
    split at hi
    · next hplaces =>
      obtain rfl := Option.some.inj hi
      have hkept := ofNumeral_eq_integer hn hplaces hfits fun hnegative =>
        Nat.pos_of_ne_zero fun hzero => hne (hn.eq_minus_zero hstrict hplaces hnegative hzero)
      exact ⟨Option.some.inj (hj.symm.trans hkept), hfits⟩
    · cases hi
  · rintro ⟨rfl, -⟩
    obtain ⟨hplaces, rfl, -⟩ := integer_of_ofNumeral hn hj
    exact if_pos hplaces

/-! ## Floats -/

variable {f : Format}

theorem Json.Numeral.Plain.magnitude_eq (hn : n.Plain) :
    n.magnitude = n.significand * 10 ^ (-(n.places.length : ℤ)) := by
  rw [Numeral.magnitude, hn.scale_eq]

/-- A double that is nearest to a number is what its text is read as. -/
theorem binaryRead_eq (hn : n.Plain) {x : Binary f} (hf : f.Proper)
    (h : x.IsNearest n.negative n.magnitude) : Binary.read n.write = some x := by
  rw [hn.magnitude_eq] at h
  rw [hn.binaryRead_write, h.ofScientific_eq hf]

/-- **A single that is read by way of a double** is the one that is read at once, unless the double
lies midway between two singles. -/
theorem binaryRead_convert (hn : n.Plain) {x : Double} (h : x.IsNearest n.negative n.magnitude)
    (hmid : n.magnitude = x.magnitude ∨ ¬ Format.single.Midway x.magnitude) :
    (Binary.read n.write : Option Single) = some x.convert := by
  obtain ⟨m, e, hholds, rfl, hnearest⟩ := h
  obtain ⟨a, i, htwice, hconvert⟩ :=
    Binary.convert_nearest (g := .single) (by decide) n.negative hholds
  have hpos : 0 ≤ n.magnitude := by
    rw [hn.magnitude_eq]
    positivity
  have honce := hnearest.through (by decide) Format.double_refines_single hpos htwice hmid
  rw [hn.magnitude_eq] at honce
  rw [hn.binaryRead_write, Binary.ofScientific_eq Format.single_proper honce, ← hconvert]

/-! ## Decimals -/

/-- The text of a number is read as the decimal with its digits. -/
theorem decimalRead_eq (hn : n.Plain) (hlength : n.write.length < 2 ^ 63) :
    Decimal.read n.write = some ⟨signed n.negative n.significand, n.scale⟩ := by
  refine hn.decimalRead_write ?_
  have hfraction : n.places.length ≤ n.fraction.length := by
    unfold Numeral.fraction
    split
    · next h =>
      rw [List.isEmpty_iff.1 h]
    · exact Nat.le_succ _
  have hplaces : n.places.length ≤ n.write.length := by
    rw [hn.write_eq, List.length_append]
    omega
  have hbound : (twoPow ((64 : ℕ) - 1)) = 2 ^ 63 := by decide
  rw [fitsWord_iff, hn.scale_eq, hbound]
  push_cast
  omega

theorem ofJson_decimal {a : Decimal} (h : Value.jsonDecimal? (.number j) = some a) :
    Value.ofJson .decimal (.number j) = .ok (.decimal a) := by
  show Value.orMismatch .decimal (.number j) ((Value.jsonDecimal? (.number j)).map .decimal) = _
  rw [h]
  rfl

/-- A number that a decimal keeps, of a double nearest to it: zero, or one of at most fifteen
digits that is not too small. -/
theorem magnitude_of_few_digits {m : ℕ} {e : ℤ}
    (hnearest : Format.double.Nearest n.magnitude m e)
    (hfew : n.magnitude = 0 ∨ 2 ^ (-1022 : ℤ) ≤ n.magnitude ∧
      ∃ (d : ℕ) (k : ℤ), d < 10 ^ 15 ∧ n.magnitude = d * 10 ^ k) :
    (if m = 0 then 0 else (Binary.shortest .toEven .double m e).value) = n.magnitude := by
  rcases hfew with hzero | ⟨hnormal, d, k, hd, hvalue⟩
  · rw [hzero] at hnearest ⊢
    obtain ⟨rfl, -⟩ := hnearest.unique (by decide) (Format.nearest_zero (by decide))
    exact if_pos rfl
  · have hmantissa := hnearest.le_mantissa (by decide) hnormal
    have hpos : 0 < d := by
      refine Nat.pos_of_ne_zero fun h => ?_
      rw [hvalue, h, Nat.cast_zero, zero_mul] at hnormal
      exact absurd hnormal (not_le.2 (by positivity))
    have hm : m ≠ 0 := (lt_of_lt_of_le (twoPow_pos _) hmantissa).ne'
    rw [hvalue] at hnearest ⊢
    rw [if_neg hm]
    exact Binary.value_shortest (by decide) (by decide) (by decide) hmantissa hpos hd hnearest

/-! ## Both readings -/

/-- What a document keeps of the number is enough for the value of the kind. -/
def Kind.Keeps (k : Kind) (n : Numeral) (j : Json.Number) : Prop :=
  match k with
  | float64 => j.toDouble.IsNearest n.negative n.magnitude
  | float32 => j.toDouble.IsNearest n.negative n.magnitude ∧
      (n.magnitude = j.toDouble.magnitude ∨ ¬ Format.single.Midway j.toDouble.magnitude)
  | decimal => (∃ i, j = .integer i) ∨ j.toDouble.IsNearest n.negative n.magnitude ∧
      (n.magnitude = 0 ∨ 2 ^ (-1022 : ℤ) ≤ n.magnitude ∧
        ∃ (d : ℕ) (e : ℤ), d < 10 ^ 15 ∧ n.magnitude = d * 10 ^ e)
  | _ => True

/-- Both readings of a text give a value or neither does, and they are equal if the document keeps
enough. -/
def Kind.Agrees (k : Kind) (n : Numeral) (j : Json.Number) : Prop :=
  ((∃ v, k.ofText n.write = some v) ↔ ∃ w, Value.ofJson k (.number j) = .ok w) ∧
    ∀ v w, k.ofText n.write = some v → Value.ofJson k (.number j) = .ok w → k.Keeps n j →
      w.equal v = true

section

variable (hn : n.Plain) (hj : Json.Number.ofNumeral n = some j)
include hn hj

theorem integer_agrees (hk : k.isInteger = true) (hstrict : n.Strict)
    (hne : n.write ≠ ['-', '0']) : k.Agrees n j := by
  have hboth : ∀ v, k.ofText n.write = some v ↔ Value.ofJson k (.number j) = .ok v := by
    intro v
    rw [Kind.ofText_integer hk, Option.bind_eq_some_iff, Value.ofJson_number_eq_ok_iff hk]
    simp only [Kind.ofInt?_eq_some_iff hk]
    refine exists_congr fun i => and_congr_left fun ⟨_, hv⟩ => ?_
    exact readInt_iff hn hj hstrict hne (Kind.fitsWord_bits_iff.2 (Kind.inRange_of_toInt? hv).int64)
  refine ⟨exists_congr hboth, fun v w hv hw _ => ?_⟩
  obtain rfl := Except.ok.inj (hw.symm.trans ((hboth v).1 hv))
  obtain ⟨i, -, rfl, -⟩ := (Value.ofJson_number_eq_ok_iff hk).1 hw
  cases w with
  | int16 | int32 | int64 => exact (Value.equal_self_iff_of_isNumeric rfl).2 trivial
  | _ => cases hk

theorem float64_agrees : Kind.float64.Agrees n j := by
  have hread := hn.binaryRead_write (f := .double)
  refine ⟨⟨fun _ => ⟨_, rfl⟩, fun _ => ⟨_, by rw [Kind.ofText, hread]; rfl⟩⟩, ?_⟩
  rintro v w hv ⟨⟩ hkeeps
  have hnan : j.toDouble ≠ .nan := (Json.Number.notNan_of_ofNumeral hj).toDouble
  rw [Kind.ofText, binaryRead_eq hn Format.double_proper hkeeps] at hv
  obtain rfl := Option.some.inj hv
  exact (Value.equal_self_iff_of_isNumeric rfl).2 hnan

theorem float32_agrees : Kind.float32.Agrees n j := by
  have hread := hn.binaryRead_write (f := .single)
  refine ⟨⟨fun _ => ⟨_, rfl⟩, fun _ => ⟨_, by rw [Kind.ofText, hread]; rfl⟩⟩, ?_⟩
  rintro v w hv ⟨⟩ ⟨hnearest, hmid⟩
  have hnan : (j.toDouble.convert : Single) ≠ .nan :=
    Binary.convert_ne_nan (Json.Number.notNan_of_ofNumeral hj).toDouble
  rw [Kind.ofText, binaryRead_convert hn hnearest hmid] at hv
  obtain rfl := Option.some.inj hv
  exact (Value.equal_self_iff_of_isNumeric rfl).2 hnan

theorem decimal_agrees (hlength : n.write.length < 2 ^ 63) : Kind.decimal.Agrees n j := by
  have hread := decimalRead_eq hn hlength
  -- the decimal of the document, and its number if the document keeps enough
  have hdocument : ∃ d, Value.jsonDecimal? (.number j) = some d ∧ (Kind.decimal.Keeps n j →
      d.value = (⟨signed n.negative n.significand, n.scale⟩ : Decimal).value) := by
    cases j with
    | integer i =>
      obtain ⟨hplaces, hi, -⟩ := integer_of_ofNumeral hn hj
      refine ⟨_, jsonDecimal?_integer i, fun _ => ?_⟩
      rw [hi, hn.scale_eq, Numeral.significand, hplaces, List.append_nil]
      rfl
    | float x =>
      have hfinite : x.isFinite = true := Json.Number.isFinite_of_ofNumeral hj
      cases x with
      | finite negative m e h =>
        obtain ⟨N, hN, hmagnitude⟩ := jsonDecimal?_float negative h
        refine ⟨_, hN, fun hkeeps => ?_⟩
        rcases hkeeps with ⟨i, ⟨⟩⟩ | ⟨⟨m', e', h', heq, hnearest⟩, hfew⟩
        cases heq
        rw [magnitude_of_few_digits hnearest hfew] at hmagnitude
        exact value_signed_congr hmagnitude
      | infinite => cases hfinite
      | nan => cases hfinite
  obtain ⟨d, hd, hvalue⟩ := hdocument
  have hofJson := ofJson_decimal hd
  refine ⟨⟨fun _ => ⟨_, hofJson⟩, fun _ => ⟨_, by rw [Kind.ofText, hread]; rfl⟩⟩, ?_⟩
  intro v w hv hw hkeeps
  rw [hofJson] at hw
  rw [Kind.ofText, hread] at hv
  obtain rfl := Except.ok.inj hw
  obtain rfl := Option.some.inj hv
  exact beq_iff_eq.2 (congrArg some (Decimal.compare_eq_of_value (hvalue hkeeps)))

/-- **Both readings of a number agree.** -/
theorem Kind.agrees (hstrict : n.Strict) (hlength : n.write.length < 2 ^ 63)
    (hk : k.isNumeric = true) (hzero : k.isInteger = true → n.write ≠ ['-', '0']) :
    k.Agrees n j := by
  cases k with
  | float32 => exact float32_agrees hn hj
  | float64 => exact float64_agrees hn hj
  | decimal => exact decimal_agrees hn hj hlength
  | int16 | int32 | int64 => exact integer_agrees hn hj rfl hstrict (hzero rfl)
  | _ => cases hk

end

/-! ## Filters and records -/

variable {s : List Char}

theorem matches_number (hs : IsNumber s) : (Literal.number (String.ofList s)).Matches := by
  rw [Literal.Matches, String.toList_ofList]
  exact hs

/-- An equality with a number is a comparison with its value. -/
theorem compileText_number {registry : Registry} {entity selector : String} {naming : Naming}
    {e : Entity} {p : Property} (hs : IsNumber s) (he : registry.get? entity = some e)
    (hp : e.property? (naming.propertyName selector) = some p)
    (hselector : IsSelector selector.toList)
    (hv : coerce p.kind [.number (String.ofList s)] = .ok (some [v])) (d : Like.Draws) :
    (registry.compileText entity naming (selector ++ "==" ++ String.ofList s) d).1 =
      .ok (.compare p.name .eq v) := by
  have hstands : (Literal.number (String.ofList s)).StandsAlone [] :=
    ⟨fun _ => stops_nil, fun _ _ => rfl⟩
  have h := compileText_equality d he hp hselector (matches_number hs) hstands hv
  rwa [Literal.text] at h

/-- An object with one member is a record if the member is a value of its property. -/
theorem exists_ofJson_single {e : Entity} {p : Property} {d : Json} (hp : p ∈ e.properties)
    (hw : Value.ofJson p.kind d = .ok w) :
    ∃ r, Record.ofJson e (.object [(p.name, d)]) = .ok r := by
  refine Record.exists_ofJson fun q hq cause ⟨d', hmember, hcause⟩ => ?_
  rw [Json.member?_cons, Json.member?_nil] at hmember
  split at hmember
  · next hname =>
    obtain rfl := Option.some.inj hmember
    rw [List.inj_on_of_nodup_map e.distinct hq hp hname.symm, hw] at hcause
    cases hcause
  · cases hmember

/-- A numeric kind reads every number as a value, unless it is a kind of integers. -/
theorem exists_ofText (hs : IsNumber s) (hlength : s.length < 2 ^ 63) (hk : k.isNumeric = true)
    (hinteger : k.isInteger = false) : ∃ v, k.ofText s = some v := by
  obtain ⟨n, hn, rfl⟩ := hs.exists_plain
  cases k with
  | float32 => exact ⟨_, by rw [Kind.ofText, hn.binaryRead_write]; rfl⟩
  | float64 => exact ⟨_, by rw [Kind.ofText, hn.binaryRead_write]; rfl⟩
  | decimal => exact ⟨_, by rw [Kind.ofText, decimalRead_eq hn hlength]; rfl⟩
  | int16 | int32 | int64 => cases hinteger
  | _ => cases hk

/-- Minus zero as an argument is the integer zero, and as a member no integer. -/
theorem minus_zero_disagrees (hk : k.isInteger = true)
    (hj : Json.read ['-', '0'] = some (.number j)) :
    (∃ v, k.ofText ['-', '0'] = some v ∧ v.toInt? = some 0) ∧
      Value.ofJson k (.number j) = .error (.typeMismatch k (.number j)) := by
  have hplain : (⟨true, ['0'], [], none⟩ : Numeral).Plain :=
    Numeral.plain_of_digits true (Numeral.someDigits_of_all rfl) .nil
  obtain ⟨-, hnumber⟩ := hplain.jsonRead_write.1 hj
  obtain ⟨_, hm, ⟨⟩⟩ := Option.map_eq_some_iff.1 hnumber
  have hfloat : j = .float (Binary.ofInt 0).neg := (Option.some.inj hm).symm
  subst hfloat
  cases k with
  | int16 => exact ⟨⟨.int16 0, rfl, rfl⟩, rfl⟩
  | int32 => exact ⟨⟨.int32 0, rfl, rfl⟩, rfl⟩
  | int64 => exact ⟨⟨.int64 0, rfl, rfl⟩, rfl⟩
  | _ => cases hk

/-! ## One number -/

/-- **A number means the same in a filter and in a document**, as far as the document keeps it.
Every numeric kind reads both or neither, except for minus zero as an integer, and reads the same
value of both if the document keeps enough for the kind. It keeps the nearest double of every
integer within a word and of every number that is short. Where both are read and enough is kept, an
equality with the number is true of every record with this number. -/
theorem number_means_one_value {s : List Char} (hs : IsNumber s) (hlength : s.length < 2 ^ 63)
    {j : Json.Number} (hj : Json.read s = some (.number j)) :
    let l := Literal.number (String.ofList s)
    let n := Numeral.ofText s
    (∀ k : Kind, k.isNumeric = true → (k.isInteger = true → s ≠ ['-', '0']) →
      ((∃ v, coerce k [l] = .ok (some [v])) ↔ ∃ w, Value.ofJson k (.number j) = .ok w) ∧
        ∀ v w, coerce k [l] = .ok (some [v]) → Value.ofJson k (.number j) = .ok w →
          k.Keeps n j → w.equal v = true) ∧
    (∀ k : Kind, k.isNumeric = true → k.isInteger = false → ∃ v, coerce k [l] = .ok (some [v])) ∧
    (∀ k : Kind, k.isInteger = true → s = ['-', '0'] →
      (∃ v, coerce k [l] = .ok (some [v]) ∧ v.toInt? = some 0) ∧
        Value.ofJson k (.number j) = .error (.typeMismatch k (.number j))) ∧
    ((∃ i, j = .integer i) ∨ n.significand < 2 ^ 53 ∧ n.places.length ≤ 22 →
      j.toDouble.IsNearest n.negative n.magnitude) ∧
    ∀ (registry : Registry) (entity selector : String) (naming : Naming) (e : Entity)
      (p : Property), registry.get? entity = some e →
      e.property? (naming.propertyName selector) = some p → IsSelector selector.toList →
      p.kind.isNumeric = true → p.kind.Keeps n j →
      ∀ v w, coerce p.kind [l] = .ok (some [v]) → Value.ofJson p.kind (.number j) = .ok w →
        (∀ draws, (registry.compileText entity naming (selector ++ "==" ++ String.ofList s)
            draws).1 = .ok (.compare p.name .eq v)) ∧
          (∃ r, Record.ofJson e (.object [(p.name, .number j)]) = .ok r) ∧
          ∀ members r, Json.member? p.name members = some (.number j) →
            Record.ofJson e (.object members) = .ok r →
            (Predicate.compare p.name .eq v).evaluate r.get = true := by
  intro l n
  obtain ⟨m, hm, rfl⟩ := hs.exists_plain
  have hn : n = m := hm.ofText_write
  rw [hn]
  obtain ⟨hstrict, hnumber⟩ := hm.jsonRead_write.1 hj
  obtain ⟨_, hkept, ⟨⟩⟩ := Option.map_eq_some_iff.1 hnumber
  have hagrees : ∀ k : Kind, k.isNumeric = true →
      (k.isInteger = true → m.write ≠ ['-', '0']) → k.Agrees m j :=
    fun k hk hzero => Kind.agrees hm hkept hstrict hlength hk hzero
  have hinteger : ∀ k : Kind, k.isInteger = true → k.isNumeric = true := by
    intro k hk
    cases k <;> first | rfl | cases hk
  refine ⟨fun k hk hzero => ?_, fun k hk hfloat => ?_, fun k hk hzero => ?_, ?_, ?_⟩
  · obtain ⟨hboth, heq⟩ := hagrees k hk hzero
    simp only [l, coerce_number hk]
    exact ⟨hboth, heq⟩
  · simp only [l, coerce_number hk]
    exact exists_ofText hs hlength hk hfloat
  · simp only [l, coerce_number (hinteger k hk)]
    rw [hzero] at hj ⊢
    exact minus_zero_disagrees hk hj
  · rintro (⟨i, rfl⟩ | ⟨hdigits, hplaces⟩)
    · exact isNearest_of_integer hm hkept
    · exact isNearest_of_short hm hkept hdigits hplaces
  · intro registry entity selector naming e p he hp hselector hk hkeeps v w hv hw
    have hmem := (Entity.property?_eq_some_iff.1 hp).1
    have hequal : w.equal v = true := by
      have hzero : p.kind.isInteger = true → m.write ≠ ['-', '0'] := by
        intro hint heq
        rw [heq] at hj
        rw [(minus_zero_disagrees hint hj).2] at hw
        cases hw
      exact (hagrees p.kind hk hzero).2 v w ((coerce_number hk _).1 hv) hw hkeeps
    refine ⟨compileText_number hs he hp hselector hv, exists_ofJson_single hmem hw, ?_⟩
    intro members r hmember hr
    have hget := Record.get_of_member hr hmem hmember hw
    rw [Predicate.evaluate, hget, Relation.admits]
    exact hequal

/-- A number with two places is the same double of a filter and of a document. -/
theorem number_means_one_value_cents :
    let s := ['-', '1', '2', '.', '5', '0']
    IsNumber s ∧ s.length < 2 ^ 63 ∧ ∃ j, Json.read s = some (.number j) ∧
      ∀ v w, coerce .float64 [.number (String.ofList s)] = .ok (some [v]) →
        Value.ofJson .float64 (.number j) = .ok w → w.equal v = true := by
  intro s
  have hs : IsNumber s := isNumber_iff.1 (by decide)
  have hplain : (⟨true, ['1', '2'], ['5', '0'], none⟩ : Numeral).Plain :=
    Numeral.plain_of_digits true (Numeral.someDigits_of_all rfl) (run_of_all rfl)
  have hkept : ∃ j, Json.Number.ofNumeral ⟨true, ['1', '2'], ['5', '0'], none⟩ = some j :=
    Option.isSome_iff_exists.1 (by
      show (ofParts true 1250 (-2)).isSome = true
      rw [ofParts, scale]
      decide +kernel)
  obtain ⟨j, hj⟩ := hkept
  have hread : Json.read s = some (.number j) :=
    hplain.jsonRead_write.2 ⟨.inr (by decide), by rw [hj]; rfl⟩
  have hlength : s.length < 2 ^ 63 := by decide
  obtain ⟨hagree, -, -, hkeeps, -⟩ := number_means_one_value hs hlength hread
  exact ⟨hs, hlength, j, hread, fun v w hv hw =>
    (hagree .float64 rfl (by decide)).2 v w hv hw (hkeeps (.inr (by decide)))⟩

/-- Three numbers that mean two values: minus zero, which is no integer of a document; an integer
whose double lies midway between two singles; and an integer beyond a word, which a document keeps
as a double. -/
theorem number_means_two_values :
    (let s := ['-', '0'];
      IsNumber s ∧ ∃ j, Json.read s = some (.number j) ∧
        coerce .int32 [.number (String.ofList s)] = .ok (some [.int32 0]) ∧
        Value.ofJson .int32 (.number j) = .error (.typeMismatch .int32 (.number j))) ∧
    (let s := ['9', '0', '0', '7', '1', '9', '9', '7', '9', '1', '6', '1', '1', '9', '0', '5'];
      IsNumber s ∧ ∃ j v w, Json.read s = some (.number j) ∧
        coerce .float32 [.number (String.ofList s)] = .ok (some [v]) ∧
        Value.ofJson .float32 (.number j) = .ok w ∧ w.equal v = false) ∧
    let s := ['1', '8', '4', '4', '6', '7', '4', '4', '0', '7', '3', '7', '0', '9', '5', '5', '1',
      '6', '1', '7']
    IsNumber s ∧ ∃ j v w, Json.read s = some (.number j) ∧
      coerce .decimal [.number (String.ofList s)] = .ok (some [v]) ∧
      Value.ofJson .decimal (.number j) = .ok w ∧ w.equal v = false := by
  refine ⟨?_, ?_, ?_⟩ <;> intro s
  · have hplain : (⟨true, ['0'], [], none⟩ : Numeral).Plain :=
      ⟨⟨⟨nofun, run_of_all rfl⟩, .nil, nofun⟩, rfl⟩
    exact ⟨isNumber_iff.1 (by decide), _, hplain.jsonRead_write.2 ⟨.inl rfl, rfl⟩,
      (coerce_number rfl s).2 rfl, rfl⟩
  · have hplain : (⟨false, s, [], none⟩ : Numeral).Plain :=
      ⟨⟨⟨nofun, run_of_all rfl⟩, .nil, nofun⟩, rfl⟩
    have hread : (Binary.read s : Option Single) = _ := hplain.binaryRead_write
    exact ⟨isNumber_iff.1 (by decide), .integer 9007199791611905,
      .float32 (.ofScientific false 9007199791611905 0), _,
      hplain.jsonRead_write.2 ⟨.inr (by decide), rfl⟩,
      (coerce_number rfl s).2 (congrArg (Option.map _) hread), rfl, by decide +kernel⟩
  · have hplain : (⟨false, s, [], none⟩ : Numeral).Plain :=
      ⟨⟨⟨nofun, run_of_all rfl⟩, .nil, nofun⟩, rfl⟩
    obtain ⟨x, hkept, hdecimal⟩ : ∃ x, Json.Number.ofNumeral ⟨false, s, [], none⟩ =
        some (.float x) ∧ Value.jsonDecimal? (.number (.float x)) =
          some ⟨18446744073709552, -3⟩ := by
      refine ⟨.ofParts false (twoPow 52) 12, ?_, by decide +kernel⟩
      show ofParts false 1844674407370955161 1 = _
      rw [ofParts, scale]
      decide +kernel
    exact ⟨isNumber_iff.1 (by decide), .float x, .decimal ⟨18446744073709551617, 0⟩, _,
      hplain.jsonRead_write.2 ⟨.inr (by decide), by rw [hkept]; rfl⟩,
      (coerce_number rfl s).2 rfl, ofJson_decimal hdecimal, by decide +kernel⟩

end RecordFilter

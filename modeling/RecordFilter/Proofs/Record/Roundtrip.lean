import RecordFilter.Proofs.Calendar.Roundtrip
import RecordFilter.Proofs.Json.Roundtrip
import RecordFilter.Proofs.Number.Restored
import RecordFilter.Proofs.Record.Values
import RecordFilter.Record.Document

/-!
# Records are read back

The document of a record keeps the kinds of its values, so that reading it gives the record back
(`Record.reads_back_unless_nested`). Two things can go wrong. The document of a record is nested
deeper than the documents in it, and the reader goes only so deep: if a document of the record is
nested deeper than what is left, then the record is not read at all. And zeros that the scale of a
decimal stands for may come back as digits, which is the same number.

Floats are left aside.
-/

namespace RecordFilter

open Calendar Json Number

/-! ## The spelling of strings -/

namespace Value

variable {depth : ℕ}

theorem floatOfRaw_respelled {f : Format} (r : Raw) :
    (floatOfRaw r.respelled : Option (Binary f)) = floatOfRaw r := by
  cases r <;> rfl

theorem ofTagged_respelled (depth : ℕ) (tag : String) (r : Raw) :
    ofTagged depth tag r.respelled = ofTagged depth tag r := by
  unfold ofTagged
  simp only [integerOfRaw, integerOf?_respelled, floatOfRaw_respelled, stringOf?_respelled,
    boolOf?_respelled, ofRaw_respelled]

/-- A tag says what the value beside it is. `Null` has none beside it. -/
theorem ofRaw_of_alternative {r r' : Raw} {tag : String}
    (h : alternative r = some (tag, some r')) (htag : tag ≠ "Null") :
    ofRaw depth r = ofTagged depth tag r' := by
  unfold ofRaw
  rw [h]
  split
  · next heq => cases heq
  · next heq =>
    obtain ⟨rfl, -⟩ := Prod.mk.inj (Option.some.inj heq)
    exact absurd rfl htag
  · next heq =>
    obtain ⟨rfl, hr⟩ := Prod.mk.inj (Option.some.inj heq)
    rw [Option.some.inj hr]
  · next heq => exact absurd rfl (heq tag r')

/-- The value of a document does not depend on the spelling of its strings. -/
theorem ofRaw_respelled (depth : ℕ) (r : Raw) : ofRaw depth r.respelled = ofRaw depth r := by
  have hrespelled := alternative_respelled r
  cases h : alternative r with
  | none =>
    rw [h] at hrespelled
    unfold ofRaw
    rw [h, hrespelled]
    rfl
  | some p =>
    obtain ⟨tag, r'⟩ := p
    rw [h] at hrespelled
    cases r' with
    | none =>
      unfold ofRaw
      rw [h, hrespelled]
      rfl
    | some r' =>
      by_cases htag : tag = "Null"
      · subst htag
        unfold ofRaw
        rw [h, hrespelled]
        cases r' <;> rfl
      · rw [ofRaw_of_alternative h htag, ofRaw_of_alternative hrespelled htag, ofTagged_respelled]
        rfl

end Value

namespace Record

theorem fieldOfRaw_respelled (r : Raw) : fieldOfRaw r.respelled = fieldOfRaw r := by
  unfold fieldOfRaw
  rw [pairFields_respelled]
  cases pairFields "name" "value" r with
  | none => rfl
  | some p =>
    simp only [Option.map_some, Option.bind_eq_bind, Option.bind_some, Prod.map_fst, Prod.map_snd,
      stringOf?_respelled, Value.ofRaw_respelled]

/-- **The record of a document does not depend on the spelling of its strings.** -/
theorem ofRaw_respelled (r : Raw) : ofRaw r.respelled = ofRaw r := by
  unfold ofRaw
  rw [pairFields_respelled]
  cases pairFields "entity" "field_values" r with
  | none => rfl
  | some p =>
    simp only [Option.map_some, Option.bind_eq_bind, Option.bind_some, Prod.map_fst, Prod.map_snd,
      stringOf?_respelled, listOf?_respelled fieldOfRaw_respelled]

end Record

/-! ## Values -/

namespace Value

variable {limit : ℕ} {v : Value}

/-- The scale of a decimal is a word, and a document is well formed. -/
def WellFormed : Value → Prop
  | decimal d => fitsWord 64 d.scale = true
  | json j => j.WellFormed
  | _ => True

/-- The value is no float, and has none in its document. -/
def FloatFree : Value → Prop
  | float32 _ | float64 _ => False
  | json j => j.FloatFree
  | _ => True

/-- How deep the document of the value is nested. -/
def depth : Value → ℕ
  | json j => j.depth
  | _ => 0

/-- The value that is read where this one is written. -/
def restored : Value → Value
  | decimal d => decimal d.filled
  | v => v

/-- The integer of a value is read as that value. -/
theorem integerOfRaw_rawInt {i : ℤ} (h : v.toInt? = some i) :
    integerOfRaw v.kind.bits v.kind.ofInt (rawInt i) = some v := by
  have hrange := Kind.inRange_of_toInt? h
  obtain ⟨hmin, hmax⟩ := hrange.int64
  have hread : integerOf? (rawInt i) = some i := by
    rw [rawInt, integerOf?, ofNumeral_ofInt hmin (hmax.trans (by decide))]
  rw [integerOfRaw, hread, Option.bind_some, if_pos (Kind.fitsWord_bits_iff.2 hrange),
    Kind.ofInt_of_toInt? h]

theorem FloatFree.grammatical_toRaw (h : v.FloatFree) : v.toRaw.Grammatical := by
  have htagged {tag : String} {r : Raw} (hr : r.Grammatical) : (tagged tag r).Grammatical :=
    Raw.grammatical_ofMembers (by simpa using hr)
  have hinteger (i : ℤ) : (rawInt i).Grammatical := ⟨(plain_ofInt i).toWellFormed, strict_ofInt i⟩
  cases v with
  | int16 n => exact htagged (hinteger _)
  | int32 n => exact htagged (hinteger _)
  | int64 n => exact htagged (hinteger _)
  | float32 => exact h.elim
  | float64 => exact h.elim
  | decimal d => exact htagged (Raw.grammatical_text _)
  | dateTime t => exact htagged (Raw.grammatical_text _)
  | string s => exact htagged (Raw.grammatical_text _)
  | bool b => exact htagged trivial
  | json j => exact htagged (Json.grammatical_toRaw h)
  | null => exact Raw.grammatical_text _

/-- A value under a tag is read as the tag says, provided that it is not nested too deep. -/
theorem ofRaw_tagged {tag : String} {r : Raw} (htag : tag ≠ "Null")
    (h : ofTagged limit tag r = if v.depth ≤ limit then some v.restored else none) :
    ofRaw limit (tagged tag r) = if v.depth ≤ limit then some v.restored else none :=
  (ofRaw_of_alternative (alternative_ofMembers tag r) htag).trans h

/-- **A value is read back** as far as the reader goes down. -/
theorem ofRaw_toRaw (hv : v.WellFormed) (hfloat : v.FloatFree) :
    ofRaw limit v.toRaw = if v.depth ≤ limit then some v.restored else none := by
  have hflat : 0 ≤ limit := Nat.zero_le limit
  cases v with
  | int16 n =>
    have hread := integerOfRaw_rawInt (v := int16 n) rfl
    exact ofRaw_tagged (by decide) (hread.trans (if_pos hflat).symm)
  | int32 n =>
    have hread := integerOfRaw_rawInt (v := int32 n) rfl
    exact ofRaw_tagged (by decide) (hread.trans (if_pos hflat).symm)
  | int64 n =>
    have hread := integerOfRaw_rawInt (v := int64 n) rfl
    exact ofRaw_tagged (by decide) (hread.trans (if_pos hflat).symm)
  | float32 => exact hfloat.elim
  | float64 => exact hfloat.elim
  | decimal d =>
    refine ofRaw_tagged (by decide) (Eq.trans ?_ (if_pos hflat).symm)
    simp only [ofTagged, stringOf?_text, Option.bind_some, String.toList_ofList,
      Decimal.read_write hv, Option.map_some, restored]
  | dateTime t =>
    refine ofRaw_tagged (by decide) (Eq.trans ?_ (if_pos hflat).symm)
    simp only [ofTagged, stringOf?_text, Option.bind_some, String.toList_ofList,
      t.readLocalTime_write, Option.map_some, restored]
  | string s =>
    refine ofRaw_tagged (by decide) (Eq.trans ?_ (if_pos hflat).symm)
    simp only [ofTagged, stringOf?_text, Option.map_some, restored]
  | bool b => exact ofRaw_tagged (by decide) (if_pos hflat).symm
  | json j =>
    refine ofRaw_tagged (by decide) ?_
    have hjson : Json.ofRaw limit j.toRaw = if j.depth ≤ limit then some j else none :=
      Json.ofRaw_toRaw hv hfloat
    have hread := congrArg (Option.map json) hjson
    rw [apply_ite (Option.map json)] at hread
    exact hread
  | null =>
    have hnull : alternative (.text "Null") = some ("Null", none) := by
      rw [Raw.text, alternative, decodeString_chars]
      rfl
    rw [toRaw, ofRaw, hnull]
    exact (if_pos hflat).symm

end Value

/-! ## Records -/

namespace Record

/-- The record that is read where this one is written. -/
def restored (r : Record) : Record :=
  ⟨r.entity, r.fields.map fun f => ⟨f.name, f.value.restored⟩⟩

/-- How deep documents of a record may be nested. -/
def maxValueDepth : ℕ := maxDepth - wrapping

theorem grammatical_toRaw {r : Record} (h : ∀ f ∈ r.fields, f.value.FloatFree) :
    r.toRaw.Grammatical := by
  have hfield : ∀ f ∈ r.fields, (fieldToRaw f).Grammatical := fun f hf =>
    Raw.grammatical_ofMembers (by simpa using ⟨Raw.grammatical_text _, (h f hf).grammatical_toRaw⟩)
  have hfields : (Raw.array (r.fields.map fieldToRaw)).Grammatical :=
    Raw.grammaticalItems_iff.2 (List.forall_mem_map.2 hfield)
  exact Raw.grammatical_ofMembers (by simpa using ⟨Raw.grammatical_text _, hfields⟩)

theorem fieldOfRaw_fieldToRaw {f : Field} (hf : f.value.WellFormed) (hfloat : f.value.FloatFree) :
    fieldOfRaw (fieldToRaw f) =
      if f.value.depth ≤ maxValueDepth then some ⟨f.name, f.value.restored⟩ else none := by
  have hpair : pairFields "name" "value" (fieldToRaw f) = some (.text f.name, f.value.toRaw) :=
    pairFields_ofMembers (by decide) _ _
  have hvalue : Value.ofRaw (maxDepth - wrapping) f.value.toRaw =
      if f.value.depth ≤ maxValueDepth then some f.value.restored else none :=
    Value.ofRaw_toRaw hf hfloat
  simp only [fieldOfRaw, hpair, Option.bind_eq_bind, Option.bind_some, stringOf?_text, hvalue]
  split <;> rfl

/-- Fields are read one by one, and all of them have to be readable. -/
theorem mapM_fieldOfRaw {fs : List Field} (hfs : ∀ f ∈ fs, f.value.WellFormed)
    (hfloat : ∀ f ∈ fs, f.value.FloatFree) :
    (fs.map fieldToRaw).mapM fieldOfRaw =
      if ∀ f ∈ fs, f.value.depth ≤ maxValueDepth then
        some (fs.map fun f => ⟨f.name, f.value.restored⟩)
      else none := by
  induction fs with
  | nil => simp
  | cons f fs ih =>
    obtain ⟨hf, hfs⟩ := List.forall_mem_cons.1 hfs
    obtain ⟨hfloat, hfloats⟩ := List.forall_mem_cons.1 hfloat
    rw [List.map_cons, List.mapM_cons, fieldOfRaw_fieldToRaw hf hfloat, ih hfs hfloats]
    simp only [List.forall_mem_cons]
    split_ifs <;> simp_all

/-- What a record is read as where it is written. -/
theorem read_write {r : Record} (hr : ∀ f ∈ r.fields, f.value.WellFormed)
    (hfloat : ∀ f ∈ r.fields, f.value.FloatFree) :
    read r.write =
      if ∀ f ∈ r.fields, f.value.depth ≤ maxValueDepth then some r.restored else none := by
  have hpair : pairFields "entity" "field_values" r.toRaw =
      some (.text r.entity, .array (r.fields.map fieldToRaw)) :=
    pairFields_ofMembers (by decide) _ _
  rw [read, write, Raw.read_compact (grammatical_toRaw hfloat), Option.bind_some, ofRaw_respelled]
  simp only [ofRaw, hpair, Option.bind_eq_bind, Option.bind_some, stringOf?_text, listOf?,
    mapM_fieldOfRaw hr hfloat]
  split <;> rfl

end Record

/-! ## Records of documents -/

namespace Value

/-- The same value; decimals are the same if they are one number, whatever their scales. -/
inductive Matches : Value → Value → Prop
  | refl (v : Value) : Matches v v
  | decimal {a b : Decimal} (h : a.value = b.value) : Matches (decimal a) (decimal b)

theorem matches_restored (v : Value) : v.Matches v.restored := by
  cases v with
  | decimal d => exact .decimal d.value_filled.symm
  | _ => exact .refl _

theorem fitsWord_of_jsonDecimal? {j : Json} {d : Decimal} (h : jsonDecimal? j = some d) :
    fitsWord 64 d.scale = true := by
  cases j with
  | number n => exact Decimal.fitsWord_of_read h
  | string s => exact Decimal.fitsWord_of_read h
  | _ => cases h

theorem wellFormed_of_ofJson {k : Kind} {j : Json} {v : Value} (hj : j.WellFormed)
    (h : ofJson k j = .ok v) : v.WellFormed := by
  unfold ofJson at h
  split at h
  · cases h
    trivial
  cases k with
  | int16 | int32 | int64 =>
    obtain ⟨n, rfl⟩ := integerOfJson_eq_ok h
    trivial
  | decimal =>
    obtain ⟨d, hd, rfl⟩ := Option.map_eq_some_iff.1 (orMismatch_eq_ok.1 h)
    exact fitsWord_of_jsonDecimal? hd
  | float32 | float64 | string | bool | dateTime =>
    obtain ⟨x, -, rfl⟩ := Option.map_eq_some_iff.1 (orMismatch_eq_ok.1 h)
    trivial
  | other =>
    cases h
    exact hj

end Value

namespace Record

variable {e : Entity} {j : Json} {r : Record}

theorem wellFormed_of_ofJson (hj : j.WellFormed) (h : ofJson e j = .ok r) :
    ∀ f ∈ r.fields, f.value.WellFormed := by
  cases j with
  | object members =>
    intro f hf
    obtain ⟨-, hfields⟩ := ofJson_object_eq_ok_iff.1 h
    obtain ⟨p, -, -, hholds⟩ := exists_mem_of_forall₂ hfields.flip f hf
    generalize f.value = v at hholds
    cases hholds with
    | missing | null => trivial
    | value hmember _ hv => exact Value.wellFormed_of_ofJson (hj.member hmember) hv
  | _ => cases h

/-- **A record is read back.** The text of a record without floats is read as a record of the same
entity, with the same fields in their order, provided that no document of the record is nested
deeper than the reader goes below the document of the record; else the text is not read. -/
theorem reads_back_unless_nested (hj : j.WellFormed) (h : ofJson e j = .ok r)
    (hfloat : ∀ f ∈ r.fields, f.value.FloatFree) :
    ((∀ f ∈ r.fields, f.value.depth ≤ maxValueDepth) →
      ∃ r', read r.write = some r' ∧ r'.entity = r.entity ∧
        List.Forall₂ (fun f f' => f'.name = f.name ∧ f.value.Matches f'.value)
          r.fields r'.fields) ∧
    ((∃ f ∈ r.fields, maxValueDepth < f.value.depth) → read r.write = none) := by
  rw [read_write (wellFormed_of_ofJson hj h) hfloat]
  constructor
  · intro hdepth
    refine ⟨r.restored, if_pos hdepth, rfl, ?_⟩
    rw [restored, List.forall₂_map_right_iff, List.forall₂_same]
    exact fun f _ => ⟨rfl, f.value.matches_restored⟩
  · rintro ⟨f, hf, hdeep⟩
    exact if_neg fun hdepth => absurd (hdepth f hf) (not_le.2 hdeep)

/-- A leap second of a year with a sign, a decimal whose scale is below zero, and a document. -/
theorem reads_back_unless_nested_ides :
    let e : Entity := ⟨"E", [⟨"Price", .decimal, false⟩, ⟨"At", .dateTime, false⟩,
      ⟨"Extra", .other, false⟩], by decide⟩
    let extra : Json := .object [("a", .array [.number (.integer (-1))]), ("b", .string "\x01")]
    let j : Json := .object [("At", .string "-0044-03-15T23:59:60.250"), ("Extra", extra),
      ("Price", .string "12e1")]
    let ides : Date := ⟨-44, 3, 15, by decide⟩
    let t : DateTime := ⟨ides, 86399, 1250000000, by decide, by decide, by decide⟩
    let r : Record := ⟨"E", [⟨"Price", .decimal ⟨12, -1⟩⟩, ⟨"At", .dateTime t⟩,
      ⟨"Extra", .json extra⟩]⟩
    j.WellFormed ∧ ofJson e j = .ok r ∧ (∀ f ∈ r.fields, f.value.FloatFree) ∧
      (∀ f ∈ r.fields, f.value.depth ≤ maxValueDepth) ∧
      ∃ r', read r.write = some r' ∧ r'.entity = r.entity ∧
        List.Forall₂ (fun f f' => f'.name = f.name ∧ f.value.Matches f'.value)
          r.fields r'.fields := by
  intro e extra j ides t r
  have hextra : extra.WellFormed :=
    ⟨by unfold Ordered; decide, ⟨⟨by decide, by decide⟩, trivial⟩, trivial, trivial⟩
  have hj : j.WellFormed := ⟨by unfold Ordered; decide, trivial, hextra, trivial, trivial⟩
  have hread : ofJson e j = .ok r := rfl
  have hfloat : ∀ f ∈ r.fields, f.value.FloatFree := by
    simp [r, extra, Value.FloatFree, Json.FloatFree, FloatFreeMembers, FloatFreeItems]
  have hdepth : ∀ f ∈ r.fields, f.value.depth ≤ maxValueDepth := by
    simp [r, extra, Value.depth, Json.depth, depthMembers, depthItems, maxValueDepth, maxDepth,
      wrapping]
  exact ⟨hj, hread, hfloat, hdepth, (reads_back_unless_nested hj hread hfloat).1 hdepth⟩

/-! ## Nested documents -/

/-- Arrays in arrays, so many deep. -/
def nested : ℕ → Json
  | 0 => .null
  | n + 1 => .array [nested n]

theorem nested_spec (n : ℕ) :
    (nested n).WellFormed ∧ (nested n).FloatFree ∧ (nested n).depth = n := by
  induction n with
  | zero => exact ⟨trivial, trivial, rfl⟩
  | succ n ih =>
    obtain ⟨hwell, hfloat, hdepth⟩ := ih
    refine ⟨⟨hwell, trivial⟩, ⟨hfloat, trivial⟩, ?_⟩
    rw [nested, Json.depth, depthItems, depthItems, hdepth, Nat.max_zero]

/-- A record with a document that is nested one level too deep is not read back. -/
theorem nested_not_read_back :
    let e : Entity := ⟨"E", [⟨"J", .other, false⟩], by decide⟩
    let j : Json := .object [("J", nested 124)]
    let r : Record := ⟨"E", [⟨"J", .json (nested 124)⟩]⟩
    j.WellFormed ∧ ofJson e j = .ok r ∧ (∀ f ∈ r.fields, f.value.FloatFree) ∧
      read r.write = none := by
  intro e j r
  obtain ⟨hwell, hfloat, hdepth⟩ := nested_spec 124
  have hr : ∀ f ∈ r.fields, f.value.WellFormed := List.forall_mem_singleton.2 hwell
  have hfloats : ∀ f ∈ r.fields, f.value.FloatFree := List.forall_mem_singleton.2 hfloat
  have hdeep : ¬ ∀ f ∈ r.fields, f.value.depth ≤ maxValueDepth := by
    intro h
    have hle : (nested 124).depth ≤ maxValueDepth := h _ (List.mem_singleton_self _)
    rw [hdepth] at hle
    exact absurd hle (by decide)
  exact ⟨⟨List.pairwise_singleton _ _, hwell, trivial⟩, rfl, hfloats,
    (read_write hr hfloats).trans (if_neg hdeep)⟩

end Record

end RecordFilter

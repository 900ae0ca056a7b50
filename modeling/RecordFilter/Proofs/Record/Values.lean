import RecordFilter.Proofs.Filter.Traverse
import RecordFilter.Proofs.Json.Nan
import RecordFilter.Record.Basic

/-!
# The values of a record

A record that is read by the declaration of an entity has a field for each property. What an object
holds for a property (`Property.Holds`) is nothing or a value of the declared kind, and the record
has it under the name of the property (`Record.ofJson_object_eq_ok_iff`, `Record.get_ofJson`). Two
values of one kind compare, unless the kind is a complex type or one of them is NaN
(`Value.compare_ne_none`).
-/

namespace RecordFilter

open RecordFilter.Number

namespace Value

/-- The value is not NaN. -/
def NotNan : Value → Prop
  | float32 x => x ≠ .nan
  | float64 x => x ≠ .nan
  | _ => True

/-! ## Comparing -/

/-- **Values of one kind compare.** -/
theorem compare_ne_none {a b : Value} (hkind : a.kind = b.kind) (hother : b.kind ≠ .other)
    (ha : a.NotNan) (hb : b.NotNan) : a.compare b ≠ none := by
  cases b with
  | int16 | int32 | int64 | decimal | dateTime | string | bool =>
    cases a <;> cases hkind
    nofun
  | float32 y =>
    cases a with
    | float32 x => exact fun h => (Binary.compare_eq_none_iff.1 h).elim ha hb
    | _ => cases hkind
  | float64 y =>
    cases a with
    | float64 x => exact fun h => (Binary.compare_eq_none_iff.1 h).elim ha hb
    | _ => cases hkind
  | json | null => exact absurd rfl hother

/-! ## Reading -/

variable {k : Kind} {j : Json} {v : Value}

theorem orMismatch_eq_ok {o : Option Value} : orMismatch k j o = .ok v ↔ o = some v := by
  cases o <;> simp [orMismatch]

theorem integerOfJson_eq_ok {bits : Nat} {make : Int → Value}
    (h : integerOfJson k bits make j = .ok v) : ∃ n, v = make n := by
  unfold integerOfJson at h
  split at h
  · cases h
  split at h
  · exact ⟨_, (Except.ok.inj h).symm⟩
  · cases h

theorem jsonDouble?_ne_nan {x : Double} (hj : j.NanFree) (h : jsonDouble? j = some x) :
    x ≠ .nan := by
  cases j with
  | number n =>
    obtain rfl := Option.some.inj h
    exact hj.toDouble
  | _ => cases h

/-- A document that is not null is read as a value of the kind. -/
theorem kind_of_ofJson (hj : j ≠ .null) (h : ofJson k j = .ok v) : v.kind = k := by
  unfold ofJson at h
  split at h
  · exact absurd rfl hj
  cases k with
  | int16 | int32 | int64 =>
    obtain ⟨n, rfl⟩ := integerOfJson_eq_ok h
    rfl
  | float32 | float64 | string | bool | decimal | dateTime =>
    obtain ⟨x, -, rfl⟩ := Option.map_eq_some_iff.1 (orMismatch_eq_ok.1 h)
    rfl
  | other =>
    cases h
    rfl

/-- A complex type takes the document as it is. -/
theorem ofJson_other (hj : j ≠ .null) : ofJson .other j = .ok (.json j) := by
  unfold ofJson
  split
  · exact absurd rfl hj
  · rfl

theorem notNan_of_ofJson (hj : j.NanFree) (h : ofJson k j = .ok v) : v.NotNan := by
  unfold ofJson at h
  split at h
  · cases h
    trivial
  cases k with
  | int16 | int32 | int64 =>
    obtain ⟨n, rfl⟩ := integerOfJson_eq_ok h
    trivial
  | float32 =>
    obtain ⟨x, hx, rfl⟩ := Option.map_eq_some_iff.1 (orMismatch_eq_ok.1 h)
    exact Binary.convert_ne_nan (jsonDouble?_ne_nan hj hx)
  | float64 =>
    obtain ⟨x, hx, rfl⟩ := Option.map_eq_some_iff.1 (orMismatch_eq_ok.1 h)
    exact jsonDouble?_ne_nan hj hx
  | string | bool | decimal | dateTime =>
    obtain ⟨x, -, rfl⟩ := Option.map_eq_some_iff.1 (orMismatch_eq_ok.1 h)
    trivial
  | other =>
    cases h
    trivial

end Value

/-! ## Members -/

namespace Property

variable {p : Property} {members : List (String × Json)} {j : Json} {v w : Value}

/-- What an object holds for a property: nothing if the member with the property's name is missing
or null, and otherwise the value of the property's kind that the member is read as, which is the
member itself for a complex type. -/
inductive Holds (p : Property) (members : List (String × Json)) : Value → Prop
  | missing (hmember : Json.member? p.name members = none) : Holds p members .null
  | null (hmember : Json.member? p.name members = some .null) : Holds p members .null
  | value {j : Json} {v : Value} (hmember : Json.member? p.name members = some j) (hj : j ≠ .null)
      (hv : Value.ofJson p.kind j = .ok v) (hkind : v.kind = p.kind)
      (hother : p.kind = .other → v = .json j) : Holds p members v

/-- The member with the property's name is no value of the property's kind. -/
def Rejects (p : Property) (members : List (String × Json)) (cause : Value.ReadError) : Prop :=
  ∃ j, Json.member? p.name members = some j ∧ Value.ofJson p.kind j = .error cause

theorem Holds.of_ofJson (hmember : Json.member? p.name members = some j)
    (hv : Value.ofJson p.kind j = .ok v) : p.Holds members v := by
  by_cases hj : j = .null
  · subst hj
    obtain rfl := Except.ok.inj hv
    exact .null hmember
  · refine .value hmember hj hv (Value.kind_of_ofJson hj hv) fun hother => ?_
    rw [hother, Value.ofJson_other hj] at hv
    exact (Except.ok.inj hv).symm

/-- An object holds one value for a property. -/
theorem Holds.unique (hv : p.Holds members v) (hw : p.Holds members w) : v = w := by
  cases hv <;> cases hw <;> simp_all

/-- What an object holds for a property depends on the member with its name only. -/
theorem Holds.congr {members' : List (String × Json)} (hv : p.Holds members v)
    (h : Json.member? p.name members = Json.member? p.name members') : p.Holds members' v := by
  cases hv with
  | missing hmember => exact .missing (h ▸ hmember)
  | null hmember => exact .null (h ▸ hmember)
  | value hmember hj hv hkind hother => exact .value (h ▸ hmember) hj hv hkind hother

/-- An object holds a value for a property unless the member with its name is rejected. -/
theorem exists_holds_iff : (∃ v, p.Holds members v) ↔ ∀ cause, ¬ p.Rejects members cause := by
  constructor
  · rintro ⟨v, hv⟩ cause ⟨j, hmember, hcause⟩
    cases hv with
    | missing hnone => cases hnone.symm.trans hmember
    | null hnull =>
      obtain rfl := Option.some.inj (hnull.symm.trans hmember)
      cases hcause
    | value hsome _ hv =>
      obtain rfl := Option.some.inj (hsome.symm.trans hmember)
      cases hv.symm.trans hcause
  · intro h
    cases hmember : Json.member? p.name members with
    | none => exact ⟨.null, .missing hmember⟩
    | some j =>
      cases hv : Value.ofJson p.kind j with
      | ok v => exact ⟨v, .of_ofJson hmember hv⟩
      | error cause => exact absurd ⟨j, hmember, hv⟩ (h cause)

end Property

/-! ## Records -/

namespace Record

variable {e : Entity} {p : Property} {j : Json} {r : Record} {members : List (String × Json)}

theorem fieldOfJson_eq_ok_iff (entity : String) {field : Field} :
    fieldOfJson entity members p = .ok field ↔
      field.name = p.name ∧ p.Holds members field.value := by
  unfold fieldOfJson
  constructor
  · intro h
    split at h
    · next hmember =>
      cases h
      exact ⟨rfl, .missing hmember⟩
    · next j hmember =>
      split at h
      · next v hv =>
        cases h
        exact ⟨rfl, .of_ofJson hmember hv⟩
      · cases h
  · obtain ⟨name, value⟩ := field
    rintro ⟨rfl, h⟩
    cases h with
    | missing hmember => simp only [hmember]
    | null hmember => simp only [hmember, Value.ofJson]
    | value hmember _ hv => simp only [hmember, hv]

theorem fieldOfJson_eq_error_iff {entity : String} {err : ReadError} :
    fieldOfJson entity members p = .error err ↔
      ∃ cause, p.Rejects members cause ∧ err = .field entity p.name cause := by
  unfold fieldOfJson
  constructor
  · intro h
    split at h
    · cases h
    · next j hmember =>
      split at h
      · cases h
      · next cause hcause =>
        cases h
        exact ⟨cause, ⟨j, hmember, hcause⟩, rfl⟩
  · rintro ⟨cause, ⟨j, hmember, hcause⟩, rfl⟩
    simp only [hmember, hcause]

/-- The record of an object: a field for each property, with what the object holds for it. -/
theorem ofJson_object_eq_ok_iff : ofJson e (.object members) = .ok r ↔
    r.entity = e.name ∧
      List.Forall₂ (fun p field => field.name = p.name ∧ p.Holds members field.value)
        e.properties r.fields := by
  simp only [← fieldOfJson_eq_ok_iff e.name, ← mapM_eq_ok_iff]
  rw [ofJson, bind_eq_ok_iff]
  constructor
  · rintro ⟨fields, hfields, ⟨⟩⟩
    exact ⟨rfl, hfields⟩
  · obtain ⟨entity, fields⟩ := r
    rintro ⟨rfl, hfields⟩
    exact ⟨fields, hfields, rfl⟩

/-- An object is no record because of its first member, in the order of the properties, that is
rejected. -/
theorem ofJson_object_eq_error_iff {err : ReadError} : ofJson e (.object members) = .error err ↔
    ∃ before p after cause, e.properties = before ++ p :: after ∧
      (∀ q ∈ before, ∀ cause, ¬ q.Rejects members cause) ∧ p.Rejects members cause ∧
      err = .field e.name p.name cause := by
  have hok : ∀ q, (∃ field, fieldOfJson e.name members q = .ok field) ↔
      ∀ cause, ¬ q.Rejects members cause := by
    intro q
    rw [← Property.exists_holds_iff]
    simp only [fieldOfJson_eq_ok_iff]
    exact ⟨fun ⟨field, _, hvalue⟩ => ⟨field.value, hvalue⟩, fun ⟨v, hv⟩ => ⟨⟨q.name, v⟩, rfl, hv⟩⟩
  rw [ofJson, bind_eq_error_iff, mapM_eq_error_iff, Filter.Node.firstError_iff_split]
  simp only [Filter.Node.AllOk, hok, fieldOfJson_eq_error_iff]
  constructor
  · rintro (⟨before, p, after, hsplit, hbefore, cause, hcause, rfl⟩ | ⟨_, -, ⟨⟩⟩)
    exact ⟨before, p, after, cause, hsplit, hbefore, hcause, rfl⟩
  · rintro ⟨before, p, after, cause, hsplit, hbefore, hcause, rfl⟩
    exact .inl ⟨before, p, after, hsplit, hbefore, cause, hcause, rfl⟩

/-- Fields that stand for properties of different names are found under these names. -/
theorem find?_fields {R : Property → Field → Prop} (hR : ∀ p field, R p field → field.name = p.name)
    {properties : List Property} {fields : List Field} (h : List.Forall₂ R properties fields)
    (hdistinct : (properties.map Property.name).Nodup) (hp : p ∈ properties) :
    ∃ field, fields.find? (·.name = p.name) = some field ∧ R p field := by
  induction h with
  | nil => cases hp
  | @cons q field properties fields hfield _ ih =>
    rw [List.map_cons, List.nodup_cons] at hdistinct
    rcases List.mem_cons.1 hp with rfl | hp
    -- the first field with the name is the one of this property, as no other one has it
    · exact ⟨field, List.find?_cons_of_pos (by simpa using hR p field hfield), hfield⟩
    · obtain ⟨found, hfound, hpfound⟩ := ih hdistinct.2 hp
      refine ⟨found, ?_, hpfound⟩
      rw [List.find?_cons_of_neg, hfound]
      rw [decide_eq_true_eq, hR q field hfield]
      exact fun heq => hdistinct.1 (heq ▸ List.mem_map_of_mem hp)

/-- A record has under the name of a property what the object holds for it. -/
theorem holds_get (h : ofJson e (.object members) = .ok r) (hp : p ∈ e.properties) :
    p.Holds members (r.get p.name) := by
  obtain ⟨field, hfield, -, hvalue⟩ := find?_fields (fun _ _ h => h.1)
    (ofJson_object_eq_ok_iff.1 h).2 e.distinct hp
  rw [get]
  simpa only [hfield] using hvalue

/-- **A record holds values of the declared kinds**, or nothing. -/
theorem get_ofJson (hj : j.NanFree) (h : ofJson e j = .ok r) (hp : p ∈ e.properties) :
    r.get p.name = .null ∨ (r.get p.name).kind = p.kind ∧ (r.get p.name).NotNan := by
  cases j with
  | object members =>
    have hholds := holds_get h hp
    generalize r.get p.name = v at hholds
    cases hholds with
    | missing | null => exact .inl rfl
    | value hmember _ hv hkind _ =>
      obtain ⟨m, hm, rfl⟩ := Option.map_eq_some_iff.1 hmember
      have hfree := Json.nanFreeMembers_iff.1 hj m (List.mem_of_find?_eq_some hm)
      exact .inr ⟨hkind, Value.notNan_of_ofJson hfree hv⟩
  | _ => cases h

/-- A record holds what the member of a property's name is read as. -/
theorem get_of_member {v : Value} (h : ofJson e (.object members) = .ok r) (hp : p ∈ e.properties)
    (hmember : Json.member? p.name members = some j) (hv : Value.ofJson p.kind j = .ok v) :
    r.get p.name = v :=
  (holds_get h hp).unique (.of_ofJson hmember hv)

/-- An object is a record if each of its members that has the name of a property is a value of the
property's kind. -/
theorem exists_ofJson (h : ∀ p ∈ e.properties, ∀ cause, ¬ p.Rejects members cause) :
    ∃ r, ofJson e (.object members) = .ok r := by
  cases hr : ofJson e (.object members) with
  | ok r => exact ⟨r, rfl⟩
  | error err =>
    obtain ⟨before, p, after, cause, hsplit, -, hcause, -⟩ := ofJson_object_eq_error_iff.1 hr
    exact absurd hcause (h p (by simp [hsplit]) cause)

end Record

end RecordFilter

import RecordFilter.Proofs.Compile.Meaning
import RecordFilter.Proofs.Json.Members
import RecordFilter.Proofs.Record.Values
import RecordFilter.Proofs.Schema.Names

/-!
# Records of objects

What the declaration of an entity makes of a document. Only objects are records. The properties are
looked up in the object one by one, in the order of their declaration, and the first member that is
no value of its property is the error; else there is one field for each property
(`read_by_declaration`).

The members of an object are looked up by name, so neither their order nor members without a
property matter. In a text the last member with a name counts (`Json.exists_ofMembers`), and a
filter looks only at the properties that it names (`evaluate_compile_congr`).
-/

namespace RecordFilter

open RecordFilter.Filter

namespace Record

variable {e : Entity} {members members' : List (String × Json)} {r : Record}

theorem ofJson_eq_notAnObject_iff {j : Json} :
    ofJson e j = .error (.notAnObject e.name) ↔ ∀ members, j ≠ .object members := by
  constructor
  · rintro h members rfl
    obtain ⟨_, p, _, cause, -, -, -, ⟨⟩⟩ := ofJson_object_eq_error_iff.1 h
  · intro h
    cases j with
    | object members => exact absurd rfl (h members)
    | _ => rfl

/-- Objects that agree on the names of the properties are read as the same record, or fail in the
same way. -/
theorem ofJson_object_congr
    (h : ∀ p ∈ e.properties, Json.member? p.name members = Json.member? p.name members') :
    ofJson e (.object members) = ofJson e (.object members') := by
  have hfields : e.properties.mapM (fieldOfJson e.name members) =
      e.properties.mapM (fieldOfJson e.name members') :=
    mapM_congr fun p hp => by rw [fieldOfJson, fieldOfJson, h p hp]
  rw [ofJson, ofJson, hfields]

/-- The fields are named after the properties. -/
theorem names_of_ofJson (h : ofJson e (.object members) = .ok r) :
    r.fields.map Field.name = e.properties.map Property.name := by
  have hnames :
      List.Forall₂ (· = ·) (r.fields.map Field.name) (e.properties.map Property.name) := by
    rw [List.forall₂_map_left_iff, List.forall₂_map_right_iff]
    exact ((ofJson_object_eq_ok_iff.1 h).2.imp fun _ _ hfield => hfield.1).flip
  rwa [List.forall₂_eq_eq_eq] at hnames

/-- A record has nothing under a name that is not declared. -/
theorem get_of_undeclared (h : ofJson e (.object members) = .ok r) {name : String}
    (hname : ∀ p ∈ e.properties, p.name ≠ name) : r.get name = .null := by
  have hnone : r.fields.find? (·.name = name) = none := by
    refine List.find?_eq_none.2 fun field hfield => ?_
    have hmem : field.name ∈ e.properties.map Property.name :=
      names_of_ofJson h ▸ List.mem_map_of_mem hfield
    obtain ⟨p, hp, heq⟩ := List.mem_map.1 hmem
    simpa only [decide_eq_true_eq, ← heq] using hname p hp
  rw [get, hnone]

/-- **Reading of records by the declaration of an entity.**

Only an object is a record. It is none because of its first member, in the order of the properties,
that is no value of its property; if there is no such member, it is one. The record has one field
for each property, in their order and under its name, with what the object holds for it
(`Property.Holds`); it gives that value under the name of the property and nothing under any other
name.

The record depends only on the members that have the names of properties, of the members of a text
on the last one with the name, and what a filter answers only on those whose properties its
comparisons name. -/
theorem read_by_declaration (e : Entity) :
    (∀ j, ofJson e j = .error (.notAnObject e.name) ↔ ∀ members, j ≠ .object members) ∧
    (∀ members err, ofJson e (.object members) = .error err ↔
      ∃ before p after cause, e.properties = before ++ p :: after ∧
        (∀ q ∈ before, ∀ cause, ¬ q.Rejects members cause) ∧ p.Rejects members cause ∧
        err = .field e.name p.name cause) ∧
    (∀ members, (∀ p ∈ e.properties, ∀ cause, ¬ p.Rejects members cause) →
      ∃ r, ofJson e (.object members) = .ok r) ∧
    (∀ members r, ofJson e (.object members) = .ok r →
      r.entity = e.name ∧
      List.Forall₂ (fun p field => field.name = p.name ∧ p.Holds members field.value ∧
        r.get p.name = field.value) e.properties r.fields ∧
      ∀ name, (∀ p ∈ e.properties, p.name ≠ name) → r.get name = .null) ∧
    (∀ members members',
      (∀ p ∈ e.properties, Json.member? p.name members = Json.member? p.name members') →
      ofJson e (.object members) = ofJson e (.object members')) ∧
    (∀ given given',
      (∀ p ∈ e.properties, Json.lastMember? p.name given = Json.lastMember? p.name given') →
      ofJson e (Json.ofMembers given) = ofJson e (Json.ofMembers given')) ∧
    ∀ (f : Filter) n (draws : Like.Draws) q, (f.compile e n draws).1 = .ok q →
      ∀ members members' r r',
      ofJson e (.object members) = .ok r → ofJson e (.object members') = .ok r' →
      (∀ c ∈ f.comparisons, ∀ p, e.property? (n.propertyName c.selector) = some p →
        Json.member? p.name members = Json.member? p.name members') →
      q.evaluate r.get = q.evaluate r'.get := by
  refine ⟨fun j => ofJson_eq_notAnObject_iff, fun members err => ofJson_object_eq_error_iff,
    fun members => exists_ofJson, fun members r h => ?_, fun members members' =>
    ofJson_object_congr, fun given given' hgiven => ?_, ?_⟩
  · obtain ⟨hentity, hfields⟩ := ofJson_object_eq_ok_iff.1 h
    refine ⟨hentity, ?_, fun name => get_of_undeclared h⟩
    refine List.Forall₂.imp ?_ ((List.forall₂_and_left _ _).2 ⟨fun p hp => holds_get h hp, hfields⟩)
    rintro p field ⟨hget, hname, hvalue⟩
    exact ⟨hname, hvalue, hget.unique hvalue⟩
  · obtain ⟨members, hmembers, hlast⟩ := Json.exists_ofMembers given
    obtain ⟨members', hmembers', hlast'⟩ := Json.exists_ofMembers given'
    rw [hmembers, hmembers']
    exact ofJson_object_congr fun p hp => by rw [hlast, hlast', hgiven p hp]
  · intro f n draws q hq members members' r r' h h' hagree
    refine evaluate_compile_congr hq fun c hc p hp => ?_
    have hmem := (Entity.property?_eq_some_iff.1 hp).1
    exact ((holds_get h hmem).congr (hagree c hc p hp)).unique (holds_get h' hmem)

/-- Two members of the wrong types, of which the first property counts and not the first member; and
a text with a member that is not declared and one that is given twice. -/
theorem read_by_declaration_twice :
    let user : Entity :=
      ⟨"User", [{ name := "Name", kind := .string }, { name := "Age", kind := .int32 }], by decide⟩
    let wrong := [("Age", Json.string "eighteen"), ("Name", .number (.integer 1))]
    let given := [("Extra", Json.bool true), ("Age", .string "eighteen"), ("Name", .string "John"),
      ("Age", .number (.integer 18))]
    let plain := [("Age", Json.number (.integer 18)), ("Name", .string "John")]
    let john : Record := ⟨"User", [⟨"Name", .string "John"⟩, ⟨"Age", .int32 (.ofInt 18)⟩]⟩
    ofJson user (.object wrong) =
        .error (.field "User" "Name" (.typeMismatch .string (.number (.integer 1)))) ∧
      (∀ p ∈ user.properties, Json.lastMember? p.name given = Json.lastMember? p.name plain) ∧
      ofJson user (Json.ofMembers given) = ofJson user (Json.ofMembers plain) ∧
      ofJson user (.object plain) = .ok john ∧ john.get "Extra" = .null := by
  intro user wrong given plain john
  obtain ⟨-, hfails, -, hrecord, -, htext, -⟩ := read_by_declaration user
  have hagree : ∀ p ∈ user.properties,
      Json.lastMember? p.name given = Json.lastMember? p.name plain :=
    List.forall_mem_cons.2 ⟨rfl, List.forall_mem_singleton.2 rfl⟩
  have hwrong : ofJson user (.object wrong) =
      .error (.field "User" "Name" (.typeMismatch .string (.number (.integer 1)))) :=
    (hfails _ _).2 ⟨[], _, _, _, rfl, nofun, ⟨_, rfl, rfl⟩, rfl⟩
  have hjohn : ofJson user (.object plain) = .ok john := rfl
  obtain ⟨-, -, hundeclared⟩ := hrecord plain john hjohn
  exact ⟨hwrong, hagree, htext given plain hagree, hjohn, hundeclared "Extra"
    (List.forall_mem_cons.2 ⟨by decide, List.forall_mem_singleton.2 (by decide)⟩)⟩

end Record

end RecordFilter

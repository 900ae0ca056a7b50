import Mathlib.Data.List.Nodup
import RecordFilter.Schema.Registry

/-!
# Finding by name

Names are distinct, those of the properties of an entity and those of the entities of a registry.
So what is found under a name is all that has the name.
-/

namespace RecordFilter

/-- Where the keys of a list are distinct, what is found under a key is the element that has it. -/
theorem find?_key_eq_some_iff {α κ : Type} [DecidableEq κ] {key : α → κ} {xs : List α}
    (hdistinct : (xs.map key).Nodup) {k : κ} {x : α} :
    xs.find? (key · = k) = some x ↔ x ∈ xs ∧ key x = k := by
  constructor
  · intro h
    exact ⟨List.mem_of_find?_eq_some h, by simpa using List.find?_some h⟩
  · rintro ⟨hx, rfl⟩
    cases h : xs.find? (key · = key x) with
    | none => simpa using List.find?_eq_none.1 h x hx
    | some y =>
      have hy : y ∈ xs := List.mem_of_find?_eq_some h
      have hkey : key y = key x := by simpa using List.find?_some h
      rw [List.inj_on_of_nodup_map hdistinct hx hy hkey.symm]

/-- An entity has one property of each name that it declares. -/
theorem Entity.property?_eq_some_iff {e : Entity} {name : String} {p : Property} :
    e.property? name = some p ↔ p ∈ e.properties ∧ p.name = name :=
  find?_key_eq_some_iff e.distinct

theorem Entity.property?_eq_none_iff {e : Entity} {name : String} :
    e.property? name = none ↔ ∀ p ∈ e.properties, p.name ≠ name := by
  simp [Entity.property?]

/-- A registry holds one entity of each name that is registered. -/
theorem Registry.get?_eq_some_iff {r : Registry} {name : String} {e : Entity} :
    r.get? name = some e ↔ e ∈ r.entities ∧ e.name = name :=
  find?_key_eq_some_iff r.distinct

theorem Registry.get?_eq_none_iff {r : Registry} {name : String} :
    r.get? name = none ↔ name ∉ r.entities.map Entity.name := by
  simp [Registry.get?]

end RecordFilter

import Mathlib
import RecordFilter.Proofs.Schema.Names
import RecordFilter.Proofs.Session.Memory

/-!
# What a resolver remembers

Selectors are resolved one after another with one resolver. The answers are those without a memory,
and the memory holds one property for each one that was resolved, whatever selector and convention
it was resolved by (`run_remembers_each_once`). So it never outgrows the registry.

Each entry is filed under the names of an entity and of a property. `Resolver.Agrees` says that it
is the property declared there; `Remembers` adds that the names filed are exactly those of the
properties resolved so far. Names stand for properties one to one (`key_injOn`), so counting the one
counts the other.
-/

namespace RecordFilter

/-! ## Declared properties -/

/-- All properties that the entities of a registry declare, with their entities. -/
def Registry.declared (registry : Registry) : List (Entity × Property) :=
  registry.entities.flatMap fun e => e.properties.map fun p => (e, p)

theorem Registry.mem_declared_iff {registry : Registry} {e : Entity} {p : Property} :
    (e, p) ∈ registry.declared ↔ e ∈ registry.entities ∧ p ∈ e.properties := by
  simp only [declared, List.mem_flatMap, List.mem_map, Prod.mk.injEq]
  constructor
  · rintro ⟨e, he, p, hp, rfl, rfl⟩
    exact ⟨he, hp⟩
  · rintro ⟨he, hp⟩
    exact ⟨e, he, p, hp, rfl, rfl⟩

theorem Entity.resolve_eq_ok_iff {e : Entity} {n : Naming} {selector : String} {p : Property} :
    e.resolve n selector = .ok p ↔ p ∈ e.properties ∧ p.name = n.propertyName selector := by
  rw [← Entity.property?_eq_some_iff, Entity.resolve]
  cases e.property? (n.propertyName selector) <;> simp

namespace Resolver

/-! ## Lookups -/

/-- A selector to be resolved for an entity under a convention. -/
structure Lookup where
  entity : Entity
  naming : Naming
  selector : String

variable {registry : Registry} {r : Resolver} {l : Lookup} {p : Property}
  {pairs : List (Entity × Property)}

namespace Lookup

/-- What the selector stands for, found without a memory. -/
def anew (l : Lookup) : Except PropertyNotFound Property := l.entity.resolve l.naming l.selector

/-- The property found, with its entity. -/
def found? (l : Lookup) : Option (Entity × Property) :=
  match l.anew with
  | .ok p => some (l.entity, p)
  | .error _ => none

/-- The names under which what is found is filed. -/
def key (l : Lookup) : String × String := (l.entity.name, l.naming.propertyName l.selector)

end Lookup

/-- The properties that lookups find, as often as they are found. -/
def foundBy (lookups : List Lookup) : List (Entity × Property) := lookups.filterMap Lookup.found?

/-- A lookup with a resolver. -/
def perform (r : Resolver) (l : Lookup) : Except PropertyNotFound Property × Resolver :=
  r.resolve l.entity l.naming l.selector

/-- Lookups one after another: the answers, and the resolver afterwards. -/
def run (r : Resolver) : List Lookup → List (Except PropertyNotFound Property) × Resolver
  | [] => ([], r)
  | l :: rest =>
    let (answer, r) := r.perform l
    let (answers, r) := r.run rest
    (answer :: answers, r)

/-! ## One lookup -/

/-- **The three ways in which a lookup ends**: remembered, found and put into the memory, or not
found. -/
theorem perform_cases (r : Resolver) (l : Lookup) :
    (∃ p, r.found.get? l.key = some p ∧ r.perform l = (.ok p, r)) ∨
    (∃ p, r.found.get? l.key = none ∧ l.anew = .ok p ∧
      r.perform l = (.ok p, ⟨r.found.insert l.key p⟩)) ∨
    (∃ missing, r.found.get? l.key = none ∧ l.anew = .error missing ∧
      r.perform l = (.error missing, r)) := by
  unfold perform Resolver.resolve Lookup.anew Lookup.key
  cases hf : r.found.get? (l.entity.name, l.naming.propertyName l.selector) with
  | some p => exact .inl ⟨p, rfl, by simp only [hf]⟩
  | none =>
    cases l.entity.resolve l.naming l.selector with
    | ok p => exact .inr (.inl ⟨p, rfl, rfl, by simp only [hf]⟩)
    | error missing => exact .inr (.inr ⟨missing, rfl, rfl, by simp only [hf]⟩)

/-- A lookup that finds nothing leaves the memory alone. -/
theorem perform_of_error {missing : PropertyNotFound} (h : (r.perform l).1 = .error missing) :
    (r.perform l).2 = r := by
  rcases perform_cases r l with ⟨p, -, hr⟩ | ⟨p, -, -, hr⟩ | ⟨_, -, -, hr⟩
  · rw [hr]
  · rw [hr] at h
    cases h
  · rw [hr]

/-! ## What is filed -/

/-- The names under which a property is filed. -/
def key (q : Entity × Property) : String × String := (q.1.name, q.2.name)

/-- Two declared properties are not filed under the same names. -/
theorem key_injOn (registry : Registry) : Set.InjOn key {q | q ∈ registry.declared} := by
  rintro ⟨e, p⟩ h ⟨e', p'⟩ h' hkey
  obtain ⟨he, hp⟩ := Registry.mem_declared_iff.1 h
  obtain ⟨he', hp'⟩ := Registry.mem_declared_iff.1 h'
  obtain ⟨hentity, hproperty⟩ := Prod.mk.inj hkey
  obtain rfl : e = e' := List.inj_on_of_nodup_map registry.distinct he he' hentity
  obtain rfl : p = p' := List.inj_on_of_nodup_map e.distinct hp hp' hproperty
  rfl

/-- What a lookup finds is declared, and is filed under the names that were looked up. -/
theorem Lookup.of_anew (h : l.anew = .ok p) (hl : l.entity ∈ registry.entities) :
    l.found? = some (l.entity, p) ∧ (l.entity, p) ∈ registry.declared ∧
      Resolver.key (l.entity, p) = l.key := by
  obtain ⟨hp, hname⟩ := Entity.resolve_eq_ok_iff.1 h
  refine ⟨?_, Registry.mem_declared_iff.2 ⟨hl, hp⟩, ?_⟩
  · rw [found?, h]
  · rw [Resolver.key, hname, Lookup.key]

/-- A resolver that has filed exactly the declared properties of a list. -/
structure Remembers (registry : Registry) (pairs : List (Entity × Property)) (r : Resolver) :
    Prop where
  agrees : r.Agrees registry
  declared : ∀ q ∈ pairs, q ∈ registry.declared
  filed_iff : ∀ k, (∃ p, r.found.get? k = some p) ↔ ∃ q ∈ pairs, key q = k

theorem remembers_empty : Remembers registry [] Resolver.empty where
  agrees := agrees_empty
  declared := nofun
  filed_iff := by simp [Resolver.empty]

/-- Filing a property once more, or for the first time. -/
theorem Remembers.snoc {r' : Resolver} {q : Entity × Property} (h : Remembers registry pairs r)
    (hagrees : r'.Agrees registry) (hq : q ∈ registry.declared)
    (hfiled : ∃ p, r'.found.get? (key q) = some p)
    (hothers : ∀ k ≠ key q, r'.found.get? k = r.found.get? k) :
    Remembers registry (pairs ++ [q]) r' where
  agrees := hagrees
  declared := by
    intro q' hq'
    rcases List.mem_append.1 hq' with hq' | hq'
    · exact h.declared q' hq'
    · obtain rfl := List.mem_singleton.1 hq'
      exact hq
  filed_iff := by
    intro k
    by_cases hk : k = key q
    · subst hk
      exact ⟨fun _ => ⟨q, by simp, rfl⟩, fun _ => hfiled⟩
    · rw [hothers k hk, h.filed_iff k]
      constructor
      · rintro ⟨q', hq', rfl⟩
        exact ⟨q', List.mem_append_left _ hq', rfl⟩
      · rintro ⟨q', hq', rfl⟩
        rcases List.mem_append.1 hq' with hq' | hq'
        · exact ⟨q', hq', rfl⟩
        · exact absurd (congrArg key (List.mem_singleton.1 hq')) hk

/-- **A lookup answers as without a memory**, and what it finds is remembered from then on. -/
theorem Remembers.perform (h : Remembers registry pairs r) (hl : l.entity ∈ registry.entities) :
    (r.perform l).1 = l.anew ∧ Remembers registry (pairs ++ l.found?.toList) (r.perform l).2 := by
  have hget : registry.get? l.entity.name = some l.entity :=
    Registry.get?_eq_some_iff.2 ⟨hl, rfl⟩
  obtain ⟨hanswer, hagrees⟩ : (r.perform l).1 = l.anew ∧ (r.perform l).2.Agrees registry :=
    h.agrees.resolve hget l.selector
  refine ⟨hanswer, ?_⟩
  rcases perform_cases r l with ⟨p, hf, hr⟩ | ⟨p, -, hanew, hr⟩ | ⟨missing, -, hanew, hr⟩
  · rw [hr] at hanswer hagrees ⊢
    obtain ⟨hfound, hdeclared, hkey⟩ := Lookup.of_anew hanswer.symm hl
    rw [hfound]
    exact h.snoc hagrees hdeclared ⟨p, hkey ▸ hf⟩ fun _ _ => rfl
  · rw [hr] at hagrees ⊢
    obtain ⟨hfound, hdeclared, hkey⟩ := Lookup.of_anew hanew hl
    rw [hfound]
    refine h.snoc hagrees hdeclared ⟨p, ?_⟩ ?_
    · rw [hkey]
      exact Table.get?_insert_self _ _ _
    · intro k hk
      rw [hkey] at hk
      exact Table.get?_insert_of_ne _ _ hk
  · have hfound : l.found? = none := by rw [Lookup.found?, hanew]
    rw [hr, hfound, Option.toList_none, List.append_nil]
    exact h

/-! ## Runs -/

theorem Remembers.run (h : Remembers registry pairs r) {lookups : List Lookup}
    (hof : ∀ l ∈ lookups, l.entity ∈ registry.entities) :
    (r.run lookups).1 = lookups.map Lookup.anew ∧
      Remembers registry (pairs ++ foundBy lookups) (r.run lookups).2 := by
  induction lookups generalizing r pairs with
  | nil =>
    refine ⟨rfl, ?_⟩
    rw [foundBy, List.filterMap_nil, List.append_nil]
    exact h
  | cons l rest ih =>
    obtain ⟨hl, hrest⟩ := List.forall_mem_cons.1 hof
    obtain ⟨hanswer, hstep⟩ := h.perform hl
    obtain ⟨hanswers, hend⟩ := ih hstep hrest
    refine ⟨congrArg₂ List.cons hanswer hanswers, ?_⟩
    have hpairs : foundBy (l :: rest) = l.found?.toList ++ foundBy rest := by
      rw [foundBy, List.filterMap_cons]
      cases l.found? <;> rfl
    rw [hpairs, ← List.append_assoc]
    exact hend

/-! ## Sizes -/

/-- **As many properties are remembered as were found**, each counted once. -/
theorem Remembers.size_eq (h : Remembers registry pairs r) : r.size = pairs.toFinset.card := by
  have hkeys : (r.found.entries.map Prod.fst).toFinset = pairs.toFinset.image key := by
    ext k
    have hfiled := h.filed_iff k
    simp only [Table.get?_eq_some_iff] at hfiled
    simp only [List.mem_toFinset, List.mem_map, Prod.exists, exists_and_right, exists_eq_right,
      Finset.mem_image, hfiled]
  have hinj : Set.InjOn key (pairs.toFinset : Set (Entity × Property)) :=
    (key_injOn registry).mono fun q hq => h.declared q (List.mem_toFinset.1 hq)
  calc r.size = (r.found.entries.map Prod.fst).length := (List.length_map _).symm
    _ = (r.found.entries.map Prod.fst).toFinset.card :=
      (List.toFinset_card_of_nodup r.found.distinct).symm
    _ = (pairs.toFinset.image key).card := by rw [hkeys]
    _ = pairs.toFinset.card := Finset.card_image_of_injOn hinj

theorem Remembers.size_le (h : Remembers registry pairs r) :
    r.size ≤ registry.declared.length := by
  rw [h.size_eq]
  have hsub : pairs.toFinset ⊆ registry.declared.toFinset :=
    fun q hq => List.mem_toFinset.2 (h.declared q (List.mem_toFinset.1 hq))
  exact (Finset.card_le_card hsub).trans (List.toFinset_card_le _)

/-- **A resolver answers as if it had no memory, and remembers each property once.** For any lookups
of entities of a registry, under any conventions, every answer is that without a memory; where there
is none, it names the entity and the selector, and that lookup leaves the memory alone. The memory
has one entry for each property that was found, so at most as many as the registry declares. -/
theorem run_remembers_each_once (registry : Registry) (lookups : List Lookup)
    (hof : ∀ l ∈ lookups, l.entity ∈ registry.entities) :
    let r := (Resolver.empty.run lookups).2
    (Resolver.empty.run lookups).1 = lookups.map Lookup.anew ∧
    (∀ l : Lookup, ∀ missing, l.anew = .error missing → missing = ⟨l.entity.name, l.selector⟩) ∧
    (∀ l missing, (r.perform l).1 = .error missing → (r.perform l).2 = r) ∧
    r.size = (foundBy lookups).toFinset.card ∧
    r.size ≤ (registry.entities.map (·.properties.length)).sum := by
  intro r
  obtain ⟨hanswers, hend⟩ := remembers_empty.run hof
  rw [List.nil_append] at hend
  refine ⟨hanswers, ?_, fun _ _ => perform_of_error, hend.size_eq, ?_⟩
  · intro l missing h
    rw [Lookup.anew, Entity.resolve] at h
    split at h
    · cases h
    · exact (Except.error.inj h).symm
  · have hlength : registry.declared.length =
        (registry.entities.map (·.properties.length)).sum := by
      simp [Registry.declared, List.length_flatMap]
    rw [← hlength]
    exact hend.size_le

/-- One property by two spellings, one of another entity with the same name, and one that is not
declared: two entries are left. -/
theorem run_remembers_each_once_spellings :
    let user : Entity := ⟨"User", [{ name := "UserName", kind := .string }], by decide⟩
    let group : Entity := ⟨"Group", [{ name := "UserName", kind := .other }], by decide⟩
    let registry : Registry := ⟨[user, group], by decide⟩
    let lookups : List Lookup :=
      [⟨user, .snakeCase, "user_name"⟩, ⟨user, .camelCase, "userName"⟩, ⟨user, .asIs, "userName"⟩,
        ⟨group, .asIs, "UserName"⟩]
    (∀ l ∈ lookups, l.entity ∈ registry.entities) ∧
      (Resolver.empty.run lookups).2.size = (foundBy lookups).toFinset.card ∧
      (foundBy lookups).toFinset.card = 2 ∧
      (Resolver.empty.run lookups).1[2]? = some (.error ⟨"User", "userName"⟩) := by
  intro user group registry lookups
  have hof : ∀ l ∈ lookups, l.entity ∈ registry.entities := by
    simp [lookups, registry]
  obtain ⟨-, -, -, hsize, -⟩ := run_remembers_each_once registry lookups hof
  exact ⟨hof, hsize, by cbv, by cbv⟩

end Resolver

end RecordFilter

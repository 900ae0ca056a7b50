import Mathlib
import RecordFilter.Proofs.Filter.Traverse
import RecordFilter.Proofs.Schema.Names

/-!
# Registering entities

A registry is told of entities one after another, and refuses some of them. What it holds is decided
by the first declaration of each name that it accepts: that one is found from then on, whatever is
registered afterwards (`run_keeps_first`).

Declarations come from outside, so names may repeat in them, those of properties in one declaration
and those of entities in several. `Refused` lists the reasons to refuse one, in the order in which
they count. A step either refuses and changes nothing, or puts one more declaration behind those
that are held (`add_eq_ok`, `add_eq_error_iff`); a run is then followed by the list of what was
accepted (`declarations_run`).
-/

namespace RecordFilter

open RecordFilter.Json

/-! ## Repeated names -/

/-- The first element that stands in the list before is preceded by distinct ones. -/
theorem firstRepeated_eq_some_iff {α : Type} [DecidableEq α] {seen xs : List α} {x : α} :
    firstRepeated seen xs = some x ↔
      ∃ before after, xs = before ++ x :: after ∧ before.Nodup ∧ (∀ y ∈ before, y ∉ seen) ∧
        (x ∈ seen ∨ x ∈ before) := by
  induction xs generalizing seen with
  | nil => simp [firstRepeated]
  | cons y ys ih =>
    rw [firstRepeated]
    by_cases hy : y ∈ seen
    · rw [if_pos hy, Option.some.injEq]
      constructor
      · rintro rfl
        exact ⟨[], ys, rfl, .nil, fun _ h => absurd h List.not_mem_nil, .inl hy⟩
      · rintro ⟨before, after, hsplit, -, hnew, -⟩
        cases before with
        | nil => exact (List.cons.inj hsplit).1
        | cons z before =>
          obtain ⟨rfl, -⟩ := List.cons.inj hsplit
          exact absurd hy (hnew y List.mem_cons_self)
    · rw [if_neg hy, ih]
      constructor
      · rintro ⟨before, after, rfl, hnodup, hnew, hx⟩
        refine ⟨y :: before, after, rfl, ?_, ?_, ?_⟩
        · exact List.nodup_cons.2 ⟨fun h => hnew y h List.mem_cons_self, hnodup⟩
        · exact List.forall_mem_cons.2 ⟨hy, fun z hz h => hnew z hz (List.mem_cons_of_mem y h)⟩
        · grind
      · rintro ⟨before, after, hsplit, hnodup, hnew, hx⟩
        cases before with
        | nil =>
          obtain ⟨rfl, -⟩ := List.cons.inj hsplit
          exact absurd (hx.resolve_right List.not_mem_nil) hy
        | cons z before =>
          obtain ⟨rfl, rfl⟩ := List.cons.inj hsplit
          obtain ⟨hz, hnodup⟩ := List.nodup_cons.1 hnodup
          obtain ⟨-, hnew⟩ := List.forall_mem_cons.1 hnew
          refine ⟨before, after, rfl, hnodup, ?_, ?_⟩
          · intro w hw h
            rcases List.mem_cons.1 h with rfl | h
            · exact hz hw
            · exact hnew w hw h
          · grind

/-! ## Declarations -/

/-- The name and the properties of an entity as they are declared, not checked yet. -/
abbrev Declaration := String × List Property

/-- The names of the properties are distinct. -/
def Declaration.Distinct (d : Declaration) : Prop := (d.2.map Property.name).Nodup

namespace Entity

variable {name : String} {properties : List Property} {e : Entity} {err : SchemaError}

/-- The declaration of an entity. -/
def declaration (e : Entity) : Declaration := (e.name, e.properties)

theorem ofProperties_eq_ok_iff :
    ofProperties name properties = .ok e ↔ e.declaration = (name, properties) := by
  unfold ofProperties
  constructor
  · intro h
    split at h
    · cases h
    · cases h
      rfl
  · rintro ⟨rfl, rfl⟩
    have hnone : firstRepeated [] (e.properties.map Property.name) = none :=
      (firstRepeated_eq_none _ _).2 ⟨e.distinct, fun _ _ => List.not_mem_nil⟩
    split
    · next h =>
      rw [hnone] at h
      cases h
    · rfl

/-- The property that is refused is the first whose name stands before it. -/
theorem ofProperties_eq_error_iff :
    ofProperties name properties = .error err ↔
      ∃ before p after, properties = before ++ p :: after ∧ (before.map Property.name).Nodup ∧
        p.name ∈ before.map Property.name ∧ err = .duplicateProperty name p.name := by
  have hfirst : ofProperties name properties = .error err ↔
      ∃ x, firstRepeated [] (properties.map Property.name) = some x ∧
        err = .duplicateProperty name x := by
    unfold ofProperties
    split
    · next x hx => simp [hx, eq_comm]
    · next hx => simp [hx]
  rw [hfirst]
  simp only [firstRepeated_eq_some_iff, List.map_eq_append_iff, List.map_eq_cons_iff]
  constructor
  · rintro ⟨_, ⟨_, _, ⟨before, _, rfl, rfl, p, after, rfl, rfl, rfl⟩, hnodup, -, hx⟩, rfl⟩
    exact ⟨before, p, after, rfl, hnodup, hx.resolve_left List.not_mem_nil, rfl⟩
  · rintro ⟨before, p, after, rfl, hnodup, hp, rfl⟩
    exact ⟨_, ⟨_, _, ⟨before, _, rfl, rfl, p, after, rfl, rfl, rfl⟩, hnodup,
      fun _ _ => List.not_mem_nil, .inr hp⟩, rfl⟩

end Entity

namespace Registry

variable {r r' : Registry} {e : Entity} {d : Declaration} {name : String} {err : SchemaError}

/-! ## One declaration -/

/-- The declarations that are held, in the order in which they came. -/
def declarations (r : Registry) : List Declaration := r.entities.map Entity.declaration

theorem get?_declaration (r : Registry) (name : String) :
    (r.get? name).map Entity.declaration = r.declarations.find? (·.1 = name) := by
  rw [declarations, List.find?_map]
  rfl

/-- Why a declaration is refused: a property has the name of one before it, or else the name of the
entity is taken. -/
inductive Refused (r : Registry) (d : Declaration) : SchemaError → Prop
  | property {before after : List Property} {p : Property} (hsplit : d.2 = before ++ p :: after)
      (hdistinct : (before.map Property.name).Nodup)
      (hrepeated : p.name ∈ before.map Property.name) :
      Refused r d (.duplicateProperty d.1 p.name)
  | entity (hdistinct : d.Distinct) (htaken : r.get? d.1 ≠ none) :
      Refused r d (.duplicateEntity d.1)

theorem register_eq_ok_iff :
    r.register e = .ok r' ↔ r.get? e.name = none ∧ r'.entities = r.entities ++ [e] := by
  rw [get?_eq_none_iff, register]
  split
  · next htaken => simp [htaken]
  · next hfree =>
    obtain ⟨entities, _⟩ := r'
    simp [hfree, eq_comm]

theorem register_eq_error_iff :
    r.register e = .error err ↔ r.get? e.name ≠ none ∧ err = .duplicateEntity e.name := by
  rw [ne_eq, get?_eq_none_iff, register]
  split
  · next htaken => simp [htaken, eq_comm]
  · next hfree => simp [hfree]

/-- A declaration that is accepted stands behind those that were there. -/
theorem add_eq_ok (h : r.add d = .ok r') :
    d.Distinct ∧ r.get? d.1 = none ∧ r'.declarations = r.declarations ++ [d] := by
  obtain ⟨e, he, hr⟩ := bind_eq_ok_iff.1 h
  obtain rfl : e.declaration = d := Entity.ofProperties_eq_ok_iff.1 he
  obtain ⟨hfree, hentities⟩ := register_eq_ok_iff.1 hr
  refine ⟨e.distinct, hfree, ?_⟩
  rw [declarations, hentities, List.map_append]
  rfl

theorem add_eq_error_iff : r.add d = .error err ↔ Refused r d err := by
  rw [add, bind_eq_error_iff]
  constructor
  · rintro (h | ⟨e, he, h⟩)
    · obtain ⟨before, p, after, hsplit, hdistinct, hrepeated, rfl⟩ :=
        Entity.ofProperties_eq_error_iff.1 h
      exact .property hsplit hdistinct hrepeated
    · obtain rfl : e.declaration = d := Entity.ofProperties_eq_ok_iff.1 he
      obtain ⟨htaken, rfl⟩ := register_eq_error_iff.1 h
      exact .entity e.distinct htaken
  · rintro (⟨hsplit, hdistinct, hrepeated⟩ | ⟨hdistinct, htaken⟩)
    · exact .inl (Entity.ofProperties_eq_error_iff.2 ⟨_, _, _, hsplit, hdistinct, hrepeated, rfl⟩)
    · have he : Entity.ofProperties d.1 d.2 = .ok ⟨d.1, d.2, hdistinct⟩ :=
        Entity.ofProperties_eq_ok_iff.2 rfl
      exact .inr ⟨_, he, register_eq_error_iff.2 ⟨htaken, rfl⟩⟩

/-- **A declaration is accepted if its property names are distinct and its name is free**, and only
then. -/
theorem exists_add_iff : (∃ r', r.add d = .ok r') ↔ d.Distinct ∧ r.get? d.1 = none := by
  constructor
  · rintro ⟨r', h⟩
    obtain ⟨hdistinct, hfree, -⟩ := add_eq_ok h
    exact ⟨hdistinct, hfree⟩
  · rintro ⟨hdistinct, hfree⟩
    cases h : r.add d with
    | ok r' => exact ⟨r', rfl⟩
    | error err =>
      rcases add_eq_error_iff.1 h with ⟨hsplit, -, hrepeated⟩ | ⟨-, htaken⟩
      · rw [Declaration.Distinct, hsplit, List.map_append, List.nodup_append] at hdistinct
        exact absurd rfl (hdistinct.2.2 _ hrepeated _ List.mem_cons_self)
      · exact absurd hfree htaken

/-! ## Runs -/

/-- A registration: of a declaration, or of a type of records with the declaration it brings. -/
inductive Registration where
  | declared (d : Declaration)
  | typed (t : TypedEntity)

/-- What is registered. -/
def Registration.declaration : Registration → Declaration
  | .declared d => d
  | .typed t => (t.name, t.properties)

/-- The registry after a registration, if that can be. -/
def Registration.apply (s : Registration) (r : Registry) : Except SchemaError Registry :=
  match s with
  | .declared d => r.add d
  | .typed t => r.registerType t

theorem Registration.apply_eq (s : Registration) (r : Registry) :
    s.apply r = r.add s.declaration := by
  cases s <;> rfl

/-- A registration on a registry that goes on afterwards: the answer, and the registry then. -/
def step (r : Registry) (s : Registration) : Except SchemaError Unit × Registry :=
  match s.apply r with
  | .ok r' => (.ok (), r')
  | .error err => (.error err, r)

/-- Registrations one after another, each with the answer to it, and the registry afterwards. -/
def run (r : Registry) : List Registration →
    List (Registration × Except SchemaError Unit) × Registry
  | [] => ([], r)
  | s :: rest =>
    let (answer, r) := r.step s
    let (log, r) := r.run rest
    ((s, answer) :: log, r)

/-- The declarations of a log that were accepted. -/
def accepted (log : List (Registration × Except SchemaError Unit)) : List Declaration :=
  log.filterMap fun (s, answer) =>
    match answer with
    | .ok () => some s.declaration
    | .error _ => none

/-- The first error of a log. -/
def firstRefusal (log : List (Registration × Except SchemaError Unit)) : Option SchemaError :=
  log.findSome? fun (_, answer) =>
    match answer with
    | .ok () => none
    | .error err => some err

theorem run_cons (r : Registry) (s : Registration) (rest : List Registration) :
    r.run (s :: rest) =
      ((s, (r.step s).1) :: ((r.step s).2.run rest).1, ((r.step s).2.run rest).2) := rfl

theorem step_of_ok {s : Registration} (h : r.add s.declaration = .ok r') :
    r.step s = (.ok (), r') := by
  rw [step, s.apply_eq, h]

theorem step_of_error {s : Registration} (h : r.add s.declaration = .error err) :
    r.step s = (.error err, r) := by
  rw [step, s.apply_eq, h]

/-- **A step adds what it accepts, and nothing else.** -/
theorem declarations_step (r : Registry) (s : Registration) :
    (r.step s).2.declarations = r.declarations ++ accepted [(s, (r.step s).1)] := by
  cases h : r.add s.declaration with
  | ok r' =>
    rw [step_of_ok h]
    exact (add_eq_ok h).2.2
  | error err =>
    rw [step_of_error h]
    exact (List.append_nil _).symm

theorem declarations_run (r : Registry) (steps : List Registration) :
    (r.run steps).2.declarations = r.declarations ++ accepted (r.run steps).1 := by
  induction steps generalizing r with
  | nil => exact (List.append_nil _).symm
  | cons s rest ih =>
    have hlog : accepted (r.run (s :: rest)).1 =
        accepted [(s, (r.step s).1)] ++ accepted ((r.step s).2.run rest).1 :=
      List.filterMap_append (l := [(s, (r.step s).1)])
    rw [hlog, run_cons, ih, declarations_step, List.append_assoc]

theorem step_eq_ok_iff {s : Registration} :
    (r.step s).1 = .ok () ↔ s.declaration.Distinct ∧ r.get? s.declaration.1 = none := by
  rw [← exists_add_iff]
  cases h : r.add s.declaration with
  | ok r' =>
    rw [step_of_ok h]
    exact ⟨fun _ => ⟨r', rfl⟩, fun _ => rfl⟩
  | error err =>
    rw [step_of_error h]
    exact ⟨nofun, fun ⟨_, hok⟩ => nomatch hok⟩

theorem step_eq_error_iff {s : Registration} :
    (r.step s).1 = .error err ↔ Refused r s.declaration err := by
  rw [← add_eq_error_iff]
  cases h : r.add s.declaration with
  | ok r' =>
    rw [step_of_ok h]
    exact ⟨nofun, nofun⟩
  | error err' =>
    rw [step_of_error h]
    exact ⟨fun heq => congrArg _ (Except.error.inj heq),
      fun heq => congrArg _ (Except.error.inj heq)⟩

theorem step_of_refused {s : Registration} (h : (r.step s).1 = .error err) : (r.step s).2 = r := by
  rw [step_eq_error_iff, ← add_eq_error_iff] at h
  rw [step_of_error h]

/-- The registry holds the same entities as before, and possibly more behind them. -/
theorem entities_prefix_step (r : Registry) (s : Registration) :
    r.entities <+: (r.step s).2.entities := by
  cases h : r.add s.declaration with
  | ok r' =>
    rw [step_of_ok h]
    obtain ⟨e, -, hr⟩ := bind_eq_ok_iff.1 h
    rw [(register_eq_ok_iff.1 hr).2]
    exact List.prefix_append _ _
  | error err => simp [step_of_error h]

theorem entities_prefix_run (r : Registry) (steps : List Registration) :
    r.entities <+: (r.run steps).2.entities := by
  induction steps generalizing r with
  | nil => exact List.prefix_rfl
  | cons s rest ih => exact (entities_prefix_step r s).trans (ih _)

/-- **What is found stays.** -/
theorem get?_run_of_some (h : r.get? name = some e) (steps : List Registration) :
    (r.run steps).2.get? name = some e := by
  rw [get?_eq_some_iff] at h ⊢
  exact ⟨(entities_prefix_run r steps).subset h.1, h.2⟩

/-! ## Documents -/

/-- **A document is registered one entity after another**, and read up to the first error. -/
theorem registerAll_eq_run (r : Registry) (ds : List Declaration) :
    r.registerAll ds = match firstRefusal (r.run (ds.map .declared)).1 with
      | none => .ok (r.run (ds.map .declared)).2
      | some err => .error err := by
  induction ds generalizing r with
  | nil => rfl
  | cons d ds ih =>
    have hstart : r.registerAll (d :: ds) = r.add d >>= fun r' => r'.registerAll ds := rfl
    rw [hstart, List.map_cons, run_cons, firstRefusal, List.findSome?_cons]
    cases h : r.add d with
    | ok r' =>
      rw [step_of_ok (s := .declared d) h]
      exact ih r'
    | error err =>
      rw [step_of_error (s := .declared d) h]
      rfl

theorem accepted_of_no_refusal : ∀ log : List (Registration × Except SchemaError Unit),
    firstRefusal log = none → accepted log = (log.map (·.1)).map Registration.declaration
  | [], _ => rfl
  | (s, .ok ()) :: log, h => congrArg (s.declaration :: ·) (accepted_of_no_refusal log h)
  | (_, .error _) :: _, h => nomatch h

theorem log_steps (r : Registry) (steps : List Registration) :
    (r.run steps).1.map (·.1) = steps := by
  induction steps generalizing r with
  | nil => rfl
  | cons s rest ih => exact congrArg (s :: ·) (ih _)

/-- A registry at its beginning, with the declarations it begins with: none, or those of the
document that it is read from. -/
inductive Begins : Registry → List Declaration → Prop
  | empty : Begins .empty []
  | read {text : List Char} {ds : List Declaration} {r : Registry}
      (hdocument : (Raw.read text).bind documentOf? = some ds) (h : Registry.read text = .ok r) :
      Begins r ds

theorem read_of_document {text : List Char} {ds : List Declaration}
    (h : (Raw.read text).bind documentOf? = some ds) :
    Registry.read text = empty.registerAll ds := by
  rw [Registry.read, h]

theorem Begins.declarations_eq {first : List Declaration} (h : Begins r first) :
    r.declarations = first := by
  cases h with
  | empty => rfl
  | read hdocument h =>
    rw [read_of_document hdocument, registerAll_eq_run] at h
    split at h
    · next hnone =>
      cases h
      have hall : accepted (Registry.empty.run (first.map .declared)).1 = first := by
        rw [accepted_of_no_refusal _ hnone, log_steps, List.map_map]
        exact List.map_id first
      rw [declarations_run, hall]
      rfl
    · cases h

/-- **The first declaration of a name counts, for ever.** From a registry that is empty or read from
a document, let registrations of any kind follow, some of which are refused. Then an entity is held
under its own name, with distinct property names, and it is the first one accepted under the name;
it stays whatever follows, and as many entities are held as were accepted. A registration is
accepted exactly if its property names are distinct and its name is not registered yet; otherwise it
is refused for its first repeated property or else for its name, and the registry is left as it was.
A document is read by registering its entities in turn, up to the first error. -/
theorem run_keeps_first {r₀ : Registry} {first : List Declaration} (h : Begins r₀ first)
    (steps : List Registration) :
    let r := (r₀.run steps).2
    let done := first ++ accepted (r₀.run steps).1
    (∀ name e, r.get? name = some e → e.name = name ∧ (e.properties.map Property.name).Nodup) ∧
    (∀ name, (r.get? name).map Entity.declaration = done.find? (·.1 = name)) ∧
    ((done.map Prod.fst).Nodup ∧ ∀ d ∈ done, d.Distinct) ∧
    r.size = done.length ∧
    (∀ name e, r.get? name = some e → ∀ more, (r.run more).2.get? name = some e) ∧
    (∀ s, ((r.step s).1 = .ok () ↔ s.declaration.Distinct ∧ r.get? s.declaration.1 = none) ∧
      ∀ err, ((r.step s).1 = .error err ↔ Refused r s.declaration err) ∧
        ((r.step s).1 = .error err → (r.step s).2 = r)) ∧
    ∀ text ds, (Raw.read text).bind documentOf? = some ds →
      Registry.read text = match firstRefusal (empty.run (ds.map .declared)).1 with
        | none => .ok (empty.run (ds.map .declared)).2
        | some err => .error err := by
  intro r done
  have hdone : r.declarations = done := by
    rw [declarations_run, h.declarations_eq]
  refine ⟨?_, ?_, ⟨?_, ?_⟩, ?_, ?_, ?_, ?_⟩
  · intro name e he
    exact ⟨(get?_eq_some_iff.1 he).2, e.distinct⟩
  · intro name
    rw [get?_declaration, hdone]
  · rw [← hdone, declarations, List.map_map]
    exact r.distinct
  · intro d hd
    rw [← hdone] at hd
    obtain ⟨e, -, rfl⟩ := List.mem_map.1 hd
    exact e.distinct
  · rw [← hdone, declarations, List.length_map]
    rfl
  · intro name e he more
    exact get?_run_of_some he more
  · intro s
    exact ⟨step_eq_ok_iff, fun err => ⟨step_eq_error_iff, step_of_refused⟩⟩
  · intro text ds hdocument
    rw [read_of_document hdocument, registerAll_eq_run]

/-- A document with one entity, then a declaration that repeats a property, one that is accepted,
and two whose names are taken. -/
theorem run_keeps_first_document :
    let age : Property := { name := "Age", kind := .int32 }
    let r₀ : Registry := ⟨[⟨"User", [age], by decide⟩], by decide⟩
    let steps : List Registration :=
      [.declared ("Order", [age, age]), .typed ⟨"Order", []⟩, .declared ("Order", [age]),
        .declared ("User", [])]
    Registry.read "\x7b\"entities\":[[\"User\",[[\"Age\",\"int32\"]]]]\x7d".toList = .ok r₀ ∧
      (r₀.run steps).1.map (·.2) =
        [.error (.duplicateProperty "Order" "Age"), .ok (), .error (.duplicateEntity "Order"),
          .error (.duplicateEntity "User")] ∧
      (r₀.run steps).2.size = 2 ∧
      ((r₀.run steps).2.get? "User").map Entity.declaration = some ("User", [age]) := by
  have hdocument : (Raw.read "\x7b\"entities\":[[\"User\",[[\"Age\",\"int32\"]]]]\x7d".toList).bind
      documentOf? = some [("User", [{ name := "Age", kind := .int32 }])] := by cbv
  intro age r₀ steps
  have hread := (read_of_document hdocument).trans (show _ = .ok r₀ from rfl)
  obtain ⟨-, hget, -, hsize, -⟩ := run_keeps_first (.read hdocument hread) steps
  exact ⟨hread, rfl, hsize, hget "User"⟩

end Registry

end RecordFilter

import RecordFilter.Proofs.Compile.Simulation
import RecordFilter.Proofs.Filter.Traverse
import RecordFilter.Proofs.Like.Draws

/-!
# What a comparison compiles to

When each way of compiling a comparison succeeds, and with which predicate. `Comparison.compileFor`
is put together from `value`, `someValues`, `require` and `pattern`; each of them has one statement
here, so that no later proof opens them.

A comparison reduces one pattern at most, as the last thing it does. So it compiles as if patterns
were reduced by a function (`compileIn`), which is read off the state in which compiling it begins
(`exists_exec_compile`). This function decides about patterns alone: a comparison that fails, fails
with every function (`compileIn_eq_error_congr`).
-/

namespace RecordFilter

open RecordFilter.Filter

/-! ## Arguments -/

namespace Kind

variable {k : Kind} {l : Literal}

theorem ofLiteral_eq_ok {v : Value} : k.ofLiteral l = .ok v ↔ k.ofText (content l) = some v := by
  unfold ofLiteral
  cases k.ofText (content l) <;> simp

/-- No argument has the form of a kind without arguments. -/
theorem fits_eq_false (h : k.takesArguments = false) : k.fits l = false := by
  cases k <;> simp [takesArguments] at h <;> cases l <;> rfl

end Kind

namespace Filter.Comparison

variable {c : Comparison} {p : Property} {q : Predicate} {vs : List Value}

/-- The arguments of the form of the property's kind; the others are passed over. -/
def fitting (c : Comparison) (p : Property) : List Literal := c.arguments.filter p.kind.fits

theorem fitting_eq_nil (h : p.kind.takesArguments = false) : c.fitting p = [] :=
  List.filter_eq_nil_iff.2 fun _ _ => Bool.eq_false_iff.1 (Kind.fits_eq_false h)

/-- The values of a comparison are those of its fitting arguments, one by one; a kind without
arguments needs no case of its own. -/
theorem values_eq : c.values p = match (c.fitting p).mapM p.kind.ofLiteral with
    | .ok vs => .ok vs
    | .error e => .error (.invalidValue c.selector c.comparator e.literal e.target c.span) := by
  unfold values coerce
  cases htakes : p.kind.takesArguments with
  | false => simp [fitting_eq_nil htakes]; rfl
  | true =>
    rw [if_pos rfl]
    show _ = match (c.arguments.filter p.kind.fits).mapM p.kind.ofLiteral with
      | .ok vs => _
      | .error e => _
    cases (c.arguments.filter p.kind.fits).mapM p.kind.ofLiteral <;> rfl

theorem values_eq_ok : c.values p = .ok vs ↔
    List.Forall₂ (fun l v => p.kind.ofText (Kind.content l) = some v) (c.fitting p) vs := by
  simp only [← Kind.ofLiteral_eq_ok, ← mapM_eq_ok_iff]
  rw [values_eq]
  cases (c.fitting p).mapM p.kind.ofLiteral <;> simp

/-- Each value of a comparison is read from one of its arguments. -/
theorem exists_of_mem_values {v : Value} (h : c.values p = .ok vs) (hv : v ∈ vs) :
    ∃ l ∈ c.arguments, p.kind.fits l = true ∧ p.kind.ofText (Kind.content l) = some v := by
  obtain ⟨l, hl, hread⟩ := exists_mem_of_forall₂ (values_eq_ok.1 h).flip v hv
  obtain ⟨hargument, hfits⟩ := List.mem_filter.1 hl
  exact ⟨l, hargument, hfits, hread⟩

/-- The constants of a comparison with a property: the values of its arguments. -/
def constants (c : Comparison) (p : Property) : List Value :=
  match coerce p.kind c.arguments with
  | .ok (some values) => values
  | _ => []

theorem constants_of_values (h : c.values p = .ok vs) : c.constants p = vs := by
  unfold values at h
  unfold constants
  split at h
  · next heq =>
    rw [heq]
    exact Except.ok.inj h
  · next heq =>
    rw [heq]
    exact Except.ok.inj h
  · cases h

theorem value_eq_ok {v : Value} : c.value p = .ok v ↔ c.values p = .ok [v] := by
  unfold value
  rw [bind_eq_ok_iff]
  constructor
  · rintro ⟨vs, hvs, h⟩
    split at h
    · cases h
    · cases h
      exact hvs
    · cases h
  · intro h
    exact ⟨[v], h, rfl⟩

theorem someValues_eq_ok : c.someValues p = .ok vs ↔ c.values p = .ok vs ∧ vs ≠ [] := by
  unfold someValues
  rw [bind_eq_ok_iff]
  constructor
  · rintro ⟨us, hus, h⟩
    split at h
    · cases h
    · next hne =>
      cases h
      exact ⟨hus, hne⟩
  · rintro ⟨hvs, hne⟩
    refine ⟨vs, hvs, ?_⟩
    split
    · exact absurd rfl hne
    · rfl

theorem require_eq_ok {allowed : Bool} {u : Unit} :
    c.require p allowed = .ok u ↔ allowed = true := by
  unfold require
  cases allowed <;> simp

/-! ## Predicates -/

theorem relate_eq_ok {r : Relation} :
    c.relate p r = .ok q ↔ ∃ v, c.values p = .ok [v] ∧ q = .compare p.name r v := by
  unfold relate
  rw [bind_eq_ok_iff]
  constructor
  · rintro ⟨v, hv, ⟨⟩⟩
    exact ⟨v, value_eq_ok.1 hv, rfl⟩
  · rintro ⟨v, hv, rfl⟩
    exact ⟨v, value_eq_ok.2 hv, rfl⟩

theorem order_eq_ok {r : Relation} :
    c.order p r = .ok q ↔ p.kind.isOrdered = true ∧
      ∃ v, c.values p = .ok [v] ∧ q = .compare p.name r v := by
  unfold order
  simp only [bind_eq_ok_iff, require_eq_ok, relate_eq_ok, exists_const]

theorem pattern_eq_ok {pattern : List Char} :
    c.pattern p = .ok pattern ↔ ∃ s, c.values p = .ok [.string s] ∧ pattern = s.toList := by
  unfold Comparison.pattern
  rw [bind_eq_ok_iff]
  constructor
  · rintro ⟨v, hv, h⟩
    split at h
    · next s =>
      cases h
      exact ⟨s, value_eq_ok.1 hv, rfl⟩
    · cases h
  · rintro ⟨s, hs, rfl⟩
    exact ⟨.string s, value_eq_ok.2 hs, rfl⟩

/-- The texts that a comparison may take for a pattern: what its arguments say, if it asks for a
pattern. -/
def patterns (c : Comparison) : List (List Char) :=
  if c.comparator = .like then c.arguments.map Kind.content else []

theorem mem_patterns_of_pattern {pattern : List Char} (hc : c.comparator = .like)
    (hp : p.kind = .string) (h : c.pattern p = .ok pattern) : pattern ∈ c.patterns := by
  obtain ⟨s, hs, rfl⟩ := pattern_eq_ok.1 h
  obtain ⟨l, hl, -, hread⟩ := exists_of_mem_values hs List.mem_cons_self
  rw [hp, Kind.ofText, Option.some.injEq, Value.string.injEq] at hread
  rw [patterns, if_pos hc, ← hread, String.toList_ofList]
  exact List.mem_map_of_mem hl

/-- A predicate that only the kind of the property can forbid. -/
theorem require_bind_eq_ok (allowed : Bool) {q' : Predicate} :
    (do c.require p allowed; return q') = Except.ok q ↔ allowed = true ∧ q = q' := by
  rw [bind_eq_ok_iff]
  constructor
  · rintro ⟨u, hu, ⟨⟩⟩
    exact ⟨require_eq_ok.1 hu, rfl⟩
  · rintro ⟨ha, rfl⟩
    exact ⟨(), require_eq_ok.2 ha, rfl⟩

theorem someValues_bind_eq_ok (make : List Value → Predicate) :
    (do return make (← c.someValues p)) = Except.ok q ↔
      ∃ vs, c.values p = .ok vs ∧ vs ≠ [] ∧ q = make vs := by
  rw [bind_eq_ok_iff]
  constructor
  · rintro ⟨vs, hvs, ⟨⟩⟩
    obtain ⟨hv, hne⟩ := someValues_eq_ok.1 hvs
    exact ⟨vs, hv, hne, rfl⟩
  · rintro ⟨vs, hv, hne, rfl⟩
    exact ⟨vs, someValues_eq_ok.2 ⟨hv, hne⟩, rfl⟩

/-- What a comparison with a property compiles to if patterns are reduced by a function. -/
def compileBy (reduce : List Char → Like) (c : Comparison) (p : Property) :
    Except CompileError Predicate :=
  answer (c.compileFor (m := Id) reduce p)

variable {reduce reduce' : List Char → Like}

theorem compileBy_eq : c.compileBy reduce p = match c.comparator with
    | .eq => c.relate p .eq
    | .neq => c.relate p .neq
    | .lt => c.order p .lt
    | .le => c.order p .le
    | .gt => c.order p .gt
    | .ge => c.order p .ge
    | .isNull => do c.require p p.acceptsNull; return .isNull p.name
    | .notNull => do c.require p p.acceptsNull; return .not (.isNull p.name)
    | .isTrue => do c.require p (p.kind = .bool); return .compare p.name .eq (.bool true)
    | .isFalse => do c.require p (p.kind = .bool); return .compare p.name .eq (.bool false)
    | .like => do c.require p (p.kind = .string); return .like p.name (reduce (← c.pattern p))
    | .within => do return .within p.name (← c.someValues p)
    | .without => do return .not (.within p.name (← c.someValues p)) := by
  unfold compileBy compileFor
  cases c.comparator <;> simp only [answer_bind, answer_liftExcept, answer_pure] <;> rfl

/-- **When a comparison with a property compiles, and to what.** -/
theorem compileBy_eq_ok : c.compileBy reduce p = .ok q ↔ match c.comparator with
    | .eq => ∃ v, c.values p = .ok [v] ∧ q = .compare p.name .eq v
    | .neq => ∃ v, c.values p = .ok [v] ∧ q = .compare p.name .neq v
    | .lt => p.kind.isOrdered = true ∧ ∃ v, c.values p = .ok [v] ∧ q = .compare p.name .lt v
    | .le => p.kind.isOrdered = true ∧ ∃ v, c.values p = .ok [v] ∧ q = .compare p.name .le v
    | .gt => p.kind.isOrdered = true ∧ ∃ v, c.values p = .ok [v] ∧ q = .compare p.name .gt v
    | .ge => p.kind.isOrdered = true ∧ ∃ v, c.values p = .ok [v] ∧ q = .compare p.name .ge v
    | .isNull => p.acceptsNull = true ∧ q = .isNull p.name
    | .notNull => p.acceptsNull = true ∧ q = .not (.isNull p.name)
    | .isTrue => p.kind = .bool ∧ q = .compare p.name .eq (.bool true)
    | .isFalse => p.kind = .bool ∧ q = .compare p.name .eq (.bool false)
    | .like => p.kind = .string ∧
        ∃ s, c.values p = .ok [.string s] ∧ q = .like p.name (reduce s.toList)
    | .within => ∃ vs, c.values p = .ok vs ∧ vs ≠ [] ∧ q = .within p.name vs
    | .without => ∃ vs, c.values p = .ok vs ∧ vs ≠ [] ∧ q = .not (.within p.name vs) := by
  rw [compileBy_eq]
  cases c.comparator with
  | eq | neq => exact relate_eq_ok
  | lt | le | gt | ge => exact order_eq_ok
  | isNull | notNull => exact require_bind_eq_ok _
  | isTrue | isFalse => simpa using require_bind_eq_ok (decide (p.kind = .bool))
  | like =>
    -- the kind is checked before the pattern is read
    simp only [bind_eq_ok_iff, require_eq_ok, pattern_eq_ok, decide_eq_true_eq]
    constructor
    · rintro ⟨-, hk, _, ⟨s, hs, rfl⟩, ⟨⟩⟩
      exact ⟨hk, s, hs, rfl⟩
    · rintro ⟨hk, s, hs, rfl⟩
      exact ⟨(), hk, _, ⟨s, hs, rfl⟩, rfl⟩
  | within => exact someValues_bind_eq_ok _
  | without => exact someValues_bind_eq_ok fun vs => .not (.within p.name vs)

/-- Patterns are reduced last, so the way to reduce them makes no error. -/
theorem compileBy_eq_error_congr {err : CompileError} :
    c.compileBy reduce p = .error err ↔ c.compileBy reduce' p = .error err := by
  rw [compileBy_eq, compileBy_eq]
  cases c.comparator with
  | like => simp only [bind_eq_error_iff (x := c.require p _), bind_return_eq_error]
  | _ => rfl

/-- Only the patterns of a comparison are reduced. -/
theorem compileBy_congr (h : ∀ pattern ∈ c.patterns, reduce pattern = reduce' pattern) :
    c.compileBy reduce p = c.compileBy reduce' p := by
  rw [compileBy_eq, compileBy_eq]
  cases hc : c.comparator with
  | like =>
    dsimp only
    cases hkind : c.require p (p.kind = .string) with
    | error e => rfl
    | ok u =>
      cases hpattern : c.pattern p with
      | error e => rfl
      | ok pattern =>
        have hp : p.kind = .string := of_decide_eq_true (require_eq_ok.1 hkind)
        show Except.ok (Predicate.like p.name (reduce pattern)) =
          .ok (.like p.name (reduce' pattern))
        rw [h pattern (mem_patterns_of_pattern hc hp hpattern)]
  | _ => rfl

/-! ## Selectors -/

/-- What a comparison on an entity compiles to if patterns are reduced by a function. -/
def compileIn (reduce : List Char → Like) (e : Entity) (n : Naming) (c : Comparison) :
    Except CompileError Predicate :=
  match e.resolve n c.selector with
  | .ok p => c.compileBy reduce p
  | .error missing => .error (.propertyNotFound missing.entity missing.selector c.span)

theorem compileIn_eq_ok {e : Entity} {n : Naming} :
    c.compileIn reduce e n = .ok q ↔
      ∃ p, e.property? (n.propertyName c.selector) = some p ∧ c.compileBy reduce p = .ok q := by
  unfold compileIn Entity.resolve
  cases e.property? (n.propertyName c.selector) with
  | none => simp
  | some p => simp

theorem compileIn_eq_error_congr {e : Entity} {n : Naming} {err : CompileError} :
    c.compileIn reduce e n = .error err ↔ c.compileIn reduce' e n = .error err := by
  unfold compileIn
  cases e.resolve n c.selector with
  | ok p => exact compileBy_eq_error_congr
  | error missing => exact Iff.rfl

theorem exists_compileIn_congr {e : Entity} {n : Naming} :
    (∃ q, c.compileIn reduce e n = .ok q) ↔ ∃ q, c.compileIn reduce' e n = .ok q :=
  exists_ok_congr fun _ => compileIn_eq_error_congr

theorem compileIn_congr {e : Entity} {n : Naming}
    (h : ∀ pattern ∈ c.patterns, reduce pattern = reduce' pattern) :
    c.compileIn reduce e n = c.compileIn reduce' e n := by
  unfold compileIn
  cases e.resolve n c.selector with
  | ok p => exact compileBy_congr h
  | error missing => rfl

/-! ## States -/

section States

variable {σ : Type} (step : List Char → StateM σ Like)

/-- Compiling a comparison with a property from a state, in which at most one pattern is reduced. -/
theorem exists_exec_compileFor (c : Comparison) (p : Property) (s : σ) :
    ∃ s', exec (c.compileFor step p) s = (c.compileBy (fun t => (step t s).1) p, s') ∧
      (s' = s ∨ ∃ t, s' = (step t s).2) := by
  rw [compileBy_eq]
  unfold compileFor
  cases c.comparator with
  | eq | neq | lt | le | gt | ge => exact ⟨s, exec_liftExcept _ s, .inl rfl⟩
  | isNull | notNull | isTrue | isFalse =>
    refine ⟨s, ?_, .inl rfl⟩
    rw [exec_bind, exec_liftExcept]
    cases c.require p _ <;> rfl
  | like =>
    simp only [exec_bind, exec_liftExcept, exec_lift]
    cases c.require p _ with
    | error e => exact ⟨s, rfl, .inl rfl⟩
    | ok u =>
      cases c.pattern p with
      | error e => exact ⟨s, rfl, .inl rfl⟩
      | ok t => exact ⟨(step t s).2, rfl, .inr ⟨t, rfl⟩⟩
  | within | without =>
    refine ⟨s, ?_, .inl rfl⟩
    rw [exec_bind, exec_liftExcept]
    cases c.someValues p <;> rfl

/-- **Compiling a comparison from a state**: patterns are reduced as from this state, and at most
one is. -/
theorem exists_exec_compile (c : Comparison) (e : Entity) (n : Naming) (s : σ) :
    ∃ s', exec (c.compile (fun selector => return e.resolve n selector) step) s =
        (c.compileIn (fun t => (step t s).1) e n, s') ∧ (s' = s ∨ ∃ t, s' = (step t s).2) := by
  unfold compile compileIn
  rw [exec_bind]
  show ∃ s', exec (match e.resolve n c.selector with | .ok p => _ | .error _ => _) s = _ ∧ _
  cases e.resolve n c.selector with
  | ok p => exact exists_exec_compileFor step c p s
  | error missing => exact ⟨s, rfl, .inl rfl⟩

end States

end Filter.Comparison

end RecordFilter

import RecordFilter.Proofs.Session.Memory

/-!
# What a filter means

The meaning of a filter is defined on the tree, without compiling anything: alternatives hold if
there are none or one of them holds, a conjunction holds if all of it does, and a comparison asks
something of the value of its property and of its constants. How patterns are reduced is a parameter
of the meaning, as it depends on the markers that are drawn.

A compiled filter evaluates to that meaning, on every assignment of values to properties
(`evaluate_iff_holds`). The compiled predicate is a left fold of binary nodes, with `true` for no
operands at all; `evaluate_joinAll_or` and `evaluate_joinAll_and` say what such a fold comes to.
-/

namespace RecordFilter

open RecordFilter.Filter RecordFilter.Like

variable {reduce : List Char → Like} {get : String → Value}

/-! ## Meaning -/

namespace Filter

/-- What a comparison with a property asks of the value of that property, if patterns are reduced by
a function. -/
def Comparison.HoldsOf (reduce : List Char → Like) (c : Comparison) (p : Property) (v : Value) :
    Prop :=
  match c.comparator with
  | .eq => ∃ k, c.constants p = [k] ∧ v.compare k = some .eq
  | .neq => ∃ k, c.constants p = [k] ∧ v.compare k ≠ some .eq
  | .lt => ∃ k, c.constants p = [k] ∧ v.compare k = some .lt
  | .le => ∃ k, c.constants p = [k] ∧ (v.compare k = some .lt ∨ v.compare k = some .eq)
  | .gt => ∃ k, c.constants p = [k] ∧ v.compare k = some .gt
  | .ge => ∃ k, c.constants p = [k] ∧ (v.compare k = some .gt ∨ v.compare k = some .eq)
  | .isNull => v = .null
  | .notNull => v ≠ .null
  | .isTrue => v.equal (.bool true) = true
  | .isFalse => v.equal (.bool false) = true
  | .like => ∃ pattern text, c.constants p = [.string pattern] ∧ v.toText? = some text ∧
      (reduce pattern.toList).accepts text.toList = true
  | .within => ∃ k ∈ c.constants p, v.equal k = true
  | .without => ∀ k ∈ c.constants p, ¬ v.equal k = true

/-- A comparison holds if it does of the value of the property that its selector stands for. -/
def Comparison.Holds (reduce : List Char → Like) (e : Entity) (n : Naming) (get : String → Value)
    (c : Comparison) : Prop :=
  ∃ p, e.property? (n.propertyName c.selector) = some p ∧ c.HoldsOf reduce p (get p.name)

theorem Comparison.holds_iff {e : Entity} {n : Naming} {c : Comparison} {p : Property}
    (hp : e.property? (n.propertyName c.selector) = some p) :
    c.Holds reduce e n get ↔ c.HoldsOf reduce p (get p.name) := by
  constructor
  · rintro ⟨p', hp', h⟩
    obtain rfl := Option.some.inj (hp.symm.trans hp')
    exact h
  · intro h
    exact ⟨p, hp, h⟩

/-- The meaning of a tree, from the meaning of its leaves. -/
def Node.Holds {α : Type} (holds : α → Prop) : Node α → Prop
  | .or ts => ts = [] ∨ ∃ t, ∃ _ : t ∈ ts, t.Holds holds
  | .and ts => ∀ t, t ∈ ts → t.Holds holds
  | .leaf a => holds a

/-- The meaning of a tree depends on its leaves only. -/
theorem Node.holds_congr {α : Type} {P Q : α → Prop} :
    ∀ {t : Node α}, (∀ a ∈ t.leaves, (P a ↔ Q a)) → (t.Holds P ↔ t.Holds Q)
  | .or ts, h => by
    rw [Node.Holds, Node.Holds]
    refine or_congr_right (exists_congr fun t => exists_congr fun ht => Node.holds_congr ?_)
    exact fun a ha => h a (by rw [leaves]; exact mem_leavesOf.2 ⟨t, ht, ha⟩)
  | .and ts, h => by
    rw [Node.Holds, Node.Holds]
    refine forall_congr' fun t => imp_congr_right fun ht => Node.holds_congr ?_
    exact fun a ha => h a (by rw [leaves]; exact mem_leavesOf.2 ⟨t, ht, ha⟩)
  | .leaf a, h => by
    rw [Node.Holds, Node.Holds]
    exact h a (by rw [leaves]; exact List.mem_singleton_self a)

end Filter

/-! ## Folds of predicates -/

namespace Predicate

theorem evaluate_foldl_or (ps : List Predicate) (p : Predicate) :
    (ps.foldl or p).evaluate get = true ↔
      p.evaluate get = true ∨ ∃ q ∈ ps, q.evaluate get = true := by
  induction ps generalizing p with
  | nil => simp
  | cons q ps ih =>
    rw [List.foldl_cons, ih]
    simp [evaluate, or_assoc]

theorem evaluate_foldl_and (ps : List Predicate) (p : Predicate) :
    (ps.foldl and p).evaluate get = true ↔
      p.evaluate get = true ∧ ∀ q ∈ ps, q.evaluate get = true := by
  induction ps generalizing p with
  | nil => simp
  | cons q ps ih =>
    rw [List.foldl_cons, ih]
    simp [evaluate, and_assoc]

/-- Joined by `or`, no predicates are true. -/
theorem evaluate_joinAll_or (ps : List Predicate) :
    (joinAll or ps).evaluate get = true ↔ ps = [] ∨ ∃ q ∈ ps, q.evaluate get = true := by
  cases ps with
  | nil => simp [joinAll, evaluate]
  | cons p ps => simp [joinAll, evaluate_foldl_or]

theorem evaluate_joinAll_and (ps : List Predicate) :
    (joinAll and ps).evaluate get = true ↔ ∀ q ∈ ps, q.evaluate get = true := by
  cases ps with
  | nil => simp [joinAll, evaluate]
  | cons p ps => simp [joinAll, evaluate_foldl_and]

end Predicate

/-! ## Single comparisons -/

theorem Value.isNull_iff {v : Value} : v.isNull = true ↔ v = .null := by
  cases v <;> simp [Value.isNull]

theorem evaluate_compare_iff {c : Comparison} {p : Property} {k : Value} {r : Relation}
    (hk : c.values p = .ok [k]) (holds : Option Ordering → Prop)
    (hr : ∀ o, r.admits o = true ↔ holds o) :
    (Predicate.compare p.name r k).evaluate get = true ↔
      ∃ k, c.constants p = [k] ∧ holds ((get p.name).compare k) := by
  rw [Predicate.evaluate, hr, Comparison.constants_of_values hk]
  constructor
  · intro h
    exact ⟨k, rfl, h⟩
  · rintro ⟨k', hk', h⟩
    obtain rfl := (List.cons.inj hk').1
    exact h

/-- **A compiled comparison evaluates to its meaning.** -/
theorem evaluate_compileBy {c : Comparison} {p : Property} {q : Predicate}
    (h : c.compileBy reduce p = .ok q) :
    q.evaluate get = true ↔ c.HoldsOf reduce p (get p.name) := by
  rw [Comparison.compileBy_eq_ok] at h
  unfold Comparison.HoldsOf
  cases hc : c.comparator <;> simp only [hc] at h ⊢
  case eq =>
    obtain ⟨k, hk, rfl⟩ := h
    exact evaluate_compare_iff hk (· = some .eq) (by simp [Relation.admits])
  case neq =>
    obtain ⟨k, hk, rfl⟩ := h
    exact evaluate_compare_iff hk (· ≠ some .eq) (by simp [Relation.admits])
  case lt =>
    obtain ⟨-, k, hk, rfl⟩ := h
    exact evaluate_compare_iff hk (· = some .lt) (by simp [Relation.admits])
  case le =>
    obtain ⟨-, k, hk, rfl⟩ := h
    exact evaluate_compare_iff hk (fun o => o = some .lt ∨ o = some .eq)
      (by simp [Relation.admits])
  case gt =>
    obtain ⟨-, k, hk, rfl⟩ := h
    exact evaluate_compare_iff hk (· = some .gt) (by simp [Relation.admits])
  case ge =>
    obtain ⟨-, k, hk, rfl⟩ := h
    exact evaluate_compare_iff hk (fun o => o = some .gt ∨ o = some .eq)
      (by simp [Relation.admits])
  case isNull =>
    obtain ⟨-, rfl⟩ := h
    exact Value.isNull_iff
  case notNull =>
    obtain ⟨-, rfl⟩ := h
    simp [Predicate.evaluate, ← Value.isNull_iff]
  case isTrue =>
    obtain ⟨-, rfl⟩ := h
    rfl
  case isFalse =>
    obtain ⟨-, rfl⟩ := h
    rfl
  case like =>
    obtain ⟨-, s, hs, rfl⟩ := h
    rw [Comparison.constants_of_values hs, Predicate.evaluate]
    cases (get p.name).toText? with
    | none => simp
    | some text => simp
  case within =>
    obtain ⟨vs, hvs, -, rfl⟩ := h
    rw [Comparison.constants_of_values hvs, Predicate.evaluate, List.any_eq_true]
  case without =>
    obtain ⟨vs, hvs, -, rfl⟩ := h
    simp [Comparison.constants_of_values hvs, Predicate.evaluate]

theorem Value.compare_null (v : Value) : Value.null.compare v = none := by
  cases v <;> rfl

/-- An absent value makes every comparison false but three. -/
theorem holdsOf_null {c : Comparison} {p : Property} {q : Predicate}
    (h : c.compileBy reduce p = .ok q) :
    c.HoldsOf reduce p .null ↔
      c.comparator = .neq ∨ c.comparator = .without ∨ c.comparator = .isNull := by
  rw [Comparison.compileBy_eq_ok] at h
  unfold Comparison.HoldsOf
  cases hc : c.comparator <;> simp only [hc] at h ⊢
  case neq =>
    obtain ⟨k, hk, -⟩ := h
    simp [Comparison.constants_of_values hk, Value.compare_null]
  all_goals simp [Value.compare_null, Value.equal, Value.toText?]

/-! ## Trees -/

namespace Filter.Node

variable {α : Type} {R : α → Predicate → Prop} {holds : α → Prop}

mutual

/-- **A tree of predicates evaluates to the meaning of the tree**, if its leaves do. -/
theorem evaluate_ofNode (h : ∀ a q, R a q → (q.evaluate get = true ↔ holds a)) :
    ∀ {t : Node α} {u : Node Predicate}, Rel R t u →
      ((Predicate.ofNode u).evaluate get = true ↔ t.Holds holds)
  | .or ts, .or us, hr => by
    obtain ⟨hnil, hsome, -⟩ := evaluate_ofNodes h ts us hr
    rw [Predicate.ofNode, Predicate.evaluate_joinAll_or, Node.Holds, hnil, hsome]
    simp only [exists_prop]
  | .and ts, .and us, hr => by
    obtain ⟨-, -, hall⟩ := evaluate_ofNodes h ts us hr
    rw [Predicate.ofNode, Predicate.evaluate_joinAll_and, Node.Holds, hall]
  | .leaf a, .leaf q, hr => by
    rw [Predicate.ofNode, Node.Holds]
    exact h a q hr

theorem evaluate_ofNodes (h : ∀ a q, R a q → (q.evaluate get = true ↔ holds a)) :
    ∀ (ts : List (Node α)) (us : List (Node Predicate)), RelAll R ts us →
      (Predicate.ofNodes us = [] ↔ ts = []) ∧
      ((∃ q ∈ Predicate.ofNodes us, q.evaluate get = true) ↔ ∃ t ∈ ts, t.Holds holds) ∧
      ((∀ q ∈ Predicate.ofNodes us, q.evaluate get = true) ↔ ∀ t ∈ ts, t.Holds holds)
  | [], [], _ => by simp [Predicate.ofNodes]
  | t :: ts, u :: us, hr => by
    obtain ⟨-, hsome, hall⟩ := evaluate_ofNodes h ts us hr.2
    simp [Predicate.ofNodes, evaluate_ofNode h hr.1, hsome, hall]

end

end Filter.Node

/-! ## Filters -/

section Filters

variable {f : Filter} {e : Entity} {n : Naming} {d : Draws} {q : Predicate}

theorem evaluate_compileIn {c : Comparison} (h : c.compileIn reduce e n = .ok q) :
    q.evaluate get = true ↔ c.Holds reduce e n get := by
  obtain ⟨p, hp, hc⟩ := Comparison.compileIn_eq_ok.1 h
  rw [evaluate_compileBy hc, Comparison.holds_iff hp]

/-- A comparison of an absent value. -/
theorem holds_of_null {c : Comparison} {p : Property} (h : ∃ r, c.compileIn reduce e n = .ok r)
    (hp : e.property? (n.propertyName c.selector) = some p) (hnull : get p.name = .null) :
    c.Holds reduce e n get ↔
      c.comparator = .neq ∨ c.comparator = .without ∨ c.comparator = .isNull := by
  obtain ⟨r, hr⟩ := h
  obtain ⟨p', hp', hc⟩ := Comparison.compileIn_eq_ok.1 hr
  obtain rfl := Option.some.inj (hp.symm.trans hp')
  -- the comparison compiles, so its arguments are of the number that its comparator needs
  rw [Comparison.holds_iff hp, hnull, holdsOf_null hc]

/-- What a filter compiles to evaluates to its meaning, with the markers that are drawn for each
comparison. -/
theorem exists_evaluate_compile (h : (f.compile e n d).1 = .ok q) :
    ∃ u : Node (Comparison × Draws), f.Rel (Drawn d) u ∧ ∀ get,
      q.evaluate get = true ↔ u.Holds fun b => b.1.Holds b.2.read e n get := by
  obtain ⟨u, t, hdrawn, ht, rfl⟩ := exists_drawn_of_compile h
  exact ⟨u, hdrawn, fun get => Node.evaluate_ofNode (fun b r hr => evaluate_compileIn hr) ht⟩

/-- Where no marker shows, patterns mean what they say. -/
theorem evaluate_compile_of_hidden (h : (f.compile e n d).1 = .ok q) (hhidden : Hidden d f)
    (get : String → Value) :
    q.evaluate get = true ↔ f.Holds (Comparison.Holds meant e n get) := by
  rw [hhidden.compile_eq, compileMeant, bind_eq_ok_iff] at h
  obtain ⟨t, ht, ⟨⟩⟩ := h
  exact Node.evaluate_ofNode (fun c r hr => evaluate_compileIn hr) (Node.traverse_eq_ok_iff.1 ht)

/-- A compiled filter looks only at the properties that its comparisons name. -/
theorem evaluate_compile_congr (h : (f.compile e n d).1 = .ok q) {get get' : String → Value}
    (hget : ∀ c ∈ f.comparisons, ∀ p, e.property? (n.propertyName c.selector) = some p →
      get p.name = get' p.name) :
    q.evaluate get = q.evaluate get' := by
  obtain ⟨u, hdrawn, heval⟩ := exists_evaluate_compile h
  rw [Bool.eq_iff_iff, heval, heval]
  refine Node.holds_congr fun b hb => exists_congr fun p => and_congr_right fun hp => ?_
  obtain ⟨c, hc, rfl, -⟩ := hdrawn.exists_leaf b hb
  rw [hget b.1 hc p hp]

end Filters

/-- **Compiling keeps the meaning.** Whatever a session has done before, a filter tree that
compiles evaluates to its meaning on every assignment of values: each comparison with a pattern asks
for what the pattern is reduced to with the markers that are still to come at it. If no marker shows
in a pattern of the filter, that is what the pattern says. An absent value makes every comparison of
it false except `!=`, `=out=` and `=isnull=`. -/
theorem evaluate_iff_holds (registry : Registry) (settings : Settings) (draws : Draws)
    (steps : List Session.Step) (entity : String) (n : Naming) (f : Filter) (q : Predicate) :
    let s := ((Session.Timed.start registry settings draws).run steps).2.session
    (s.compileNode entity n f).1 = .ok q →
    ∃ e, registry.get? entity = some e ∧
      (∃ t : Node (Comparison × Draws), f.Rel (Drawn s.draws) t ∧ ∀ get,
        q.evaluate get = true ↔ t.Holds fun x => x.1.Holds x.2.read e n get) ∧
      (Hidden s.draws f → ∀ get,
        q.evaluate get = true ↔ f.Holds (Comparison.Holds meant e n get)) ∧
      ∀ get, ∀ c ∈ f.comparisons, ∀ p, e.property? (n.propertyName c.selector) = some p →
        get p.name = .null → ∀ reduce, (c.Holds reduce e n get ↔
          c.comparator = .neq ∨ c.comparator = .without ∨ c.comparator = .isNull) := by
  intro s h
  have hs := (Session.Agrees.run (t := .start registry settings draws) Session.agrees_start steps).2
  -- the past of the session does not matter to the answer
  rw [(hs.compileNode entity n f).1] at h
  obtain ⟨e, he, h⟩ := Registry.compile_eq_ok.1 h
  refine ⟨e, he, exists_evaluate_compile h, evaluate_compile_of_hidden h, ?_⟩
  intro get c hc p hp hnull reduce
  exact holds_of_null (exists_compileIn reduce h c hc) hp hnull

/-- Alternatives of nothing, a comparison with an absent value and one with a pattern, in one
conjunction. -/
theorem evaluate_iff_holds_absent :
    let registry : Registry :=
      ⟨[⟨"User", [{ name := "Age", kind := .int32 }, { name := "Name", kind := .string }],
        by decide⟩], by decide⟩
    let f : Filter := .and [.or [], .leaf ⟨"Age", .neq, [.number "18"], ⟨0, 7, 1, 1⟩⟩,
      .leaf ⟨"Name", .like, [.bare "a*b"], ⟨8, 19, 1, 9⟩⟩]
    let s := ((Session.Timed.start registry {} (.counted 0)).run [.wait 5]).2.session
    let q : Predicate := .and (.and (.const true) (.compare "Age" .neq (.int32 (.ofInt 18))))
      (.like "Name" ⟨.beginning, ['a', 'b']⟩)
    (s.compileNode "User" .asIs f).1 = .ok q ∧ Hidden s.draws f ∧
      ∃ e, registry.get? "User" = some e ∧
        (q.evaluate (fun _ => .null) = true ↔
          f.Holds (Comparison.Holds meant e .asIs fun _ => .null)) := by
  intro registry f s q
  have hhidden : Hidden s.draws f := by
    have hpatterns : f.patterns = [['a', '*', 'b']] := by decide
    rw [Hidden, hpatterns]
    exact List.forall_mem_singleton.2 (Draws.hidden_of_not_mem (by decide) _)
  have hq : (s.compileNode "User" .asIs f).1 = .ok q := by
    have hs := (Session.Agrees.run (t := .start registry {} (.counted 0)) Session.agrees_start
      [.wait 5]).2
    rw [(hs.compileNode "User" .asIs f).1]
    exact hhidden.compile_eq.trans rfl
  obtain ⟨e, he, -, hev, -⟩ :=
    evaluate_iff_holds registry {} (.counted 0) [.wait 5] "User" .asIs f q hq
  exact ⟨hq, hhidden, e, he, hev hhidden _⟩

end RecordFilter

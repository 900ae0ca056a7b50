import RecordFilter.Proofs.Compile.Failure
import RecordFilter.Proofs.Filter.Reading.Text
import RecordFilter.Proofs.Record.Values

/-!
# Compiled filters are well typed

`Predicate.WellTyped` is what the declaration of an entity asks of a predicate: its properties are
declared, its constants are of their kinds, and its relations make sense for these kinds. A filter
text compiles to a well-typed predicate only. Evaluated against a record of the entity, such a
predicate compares values that compare, unless one is absent (`compile_wellTyped`).

Three readers have to agree on kinds for this: the one of arguments, the one of documents, and the
order of values. NaN is of a kind and still compares with nothing, so it is followed through all
three.
-/

namespace RecordFilter

open RecordFilter.Filter RecordFilter.Number RecordFilter.Text

/-! ## Types -/

/-- The relation asks which of two values is the larger one. -/
def Relation.isOrder : Relation → Bool
  | eq | neq => false
  | lt | le | gt | ge => true

/-- Comparing a property with a constant makes sense. -/
structure Relation.Suits (r : Relation) (p : Property) (v : Value) : Prop where
  kind : v.kind = p.kind
  notNan : v.NotNan
  notOther : p.kind ≠ .other
  bool : p.kind = .bool → r = .eq
  ordered : r.isOrder = true → p.kind.isNumeric = true ∨ p.kind = .dateTime

/-- Looking for a property in a list of constants makes sense. -/
structure Property.SuitsList (p : Property) (vs : List Value) : Prop where
  nonempty : vs ≠ []
  constants : ∀ v ∈ vs, v.kind = p.kind ∧ v.NotNan
  notOther : p.kind ≠ .other
  notBool : p.kind ≠ .bool

namespace Predicate

/-- The predicate makes sense for the properties that the entity declares. -/
def WellTyped (e : Entity) : Predicate → Prop
  | const _ => True
  | and l r | or l r => l.WellTyped e ∧ r.WellTyped e
  | not q => q.WellTyped e
  | compare name r v => ∃ p ∈ e.properties, p.name = name ∧ r.Suits p v
  | isNull name => ∃ p ∈ e.properties, p.name = name ∧
      (p.nullable = true ∨ p.kind = .string ∨ p.kind = .other)
  | like name _ => ∃ p ∈ e.properties, p.name = name ∧ p.kind = .string
  | within name vs => ∃ p ∈ e.properties, p.name = name ∧ p.SuitsList vs

/-- The properties and constants that evaluation compares. -/
def comparisons : Predicate → List (String × Value)
  | const _ | isNull _ | like _ _ => []
  | and l r | or l r => l.comparisons ++ r.comparisons
  | not q => q.comparisons
  | compare name _ v => [(name, v)]
  | within name vs => vs.map fun v => (name, v)

/-- Evaluation with another order of values in the place of theirs. -/
def evaluateBy (order : Value → Value → Option Ordering) (get : String → Value) : Predicate → Bool
  | and l r => l.evaluateBy order get && r.evaluateBy order get
  | or l r => l.evaluateBy order get || r.evaluateBy order get
  | not q => !q.evaluateBy order get
  | compare name r v => r.admits (order (get name) v)
  | within name vs => vs.any fun v => order (get name) v == some .eq
  | q => q.evaluate get

/-- Evaluation depends on the order of values only through the comparisons of the predicate. -/
theorem evaluateBy_eq {order : Value → Value → Option Ordering} {get : String → Value}
    {q : Predicate} (h : ∀ x ∈ q.comparisons, order (get x.1) x.2 = (get x.1).compare x.2) :
    q.evaluateBy order get = q.evaluate get := by
  induction q with
  | const | isNull | like => rfl
  | and l r ihl ihr | or l r ihl ihr =>
    rw [comparisons, List.forall_mem_append] at h
    rw [evaluateBy, evaluate, ihl h.1, ihr h.2]
  | not q ih => rw [evaluateBy, evaluate, ih h]
  | compare name r v => rw [evaluateBy, evaluate, h _ List.mem_cons_self]
  | within name vs =>
    rw [comparisons, List.forall_mem_map] at h
    rw [evaluateBy, evaluate]
    rw [Bool.eq_iff_iff, List.any_eq_true, List.any_eq_true]
    exact exists_congr fun v => and_congr_right fun hv => by rw [h v hv, Value.equal]

/-! ## Trees -/

/-- What is kept by joining predicates holds of a tree of predicates if it does of the leaves. -/
theorem joinAll_induction {P : Predicate → Prop} {join : Predicate → Predicate → Predicate}
    (hconst : P (const true)) (hjoin : ∀ l r, P l → P r → P (join l r)) {qs : List Predicate}
    (h : ∀ q ∈ qs, P q) : P (joinAll join qs) := by
  cases qs with
  | nil => exact hconst
  | cons q qs =>
    rw [joinAll]
    rw [List.forall_mem_cons] at h
    obtain ⟨hq, hqs⟩ := h
    induction qs generalizing q with
    | nil => exact hq
    | cons r qs ih =>
      rw [List.forall_mem_cons] at hqs
      exact ih _ (hjoin q r hq hqs.1) hqs.2

mutual

theorem ofNode_induction {P : Predicate → Prop} (hconst : P (const true))
    (hand : ∀ l r, P l → P r → P (and l r)) (hor : ∀ l r, P l → P r → P (or l r)) :
    ∀ {t : Node Predicate}, (∀ q ∈ t.leaves, P q) → P (ofNode t)
  | .or ts, h => by
    rw [ofNode]
    rw [Node.leaves] at h
    exact joinAll_induction hconst hor (ofNodes_induction hconst hand hor h)
  | .and ts, h => by
    rw [ofNode]
    rw [Node.leaves] at h
    exact joinAll_induction hconst hand (ofNodes_induction hconst hand hor h)
  | .leaf q, h => by
    rw [ofNode]
    exact h q (by rw [Node.leaves]; exact List.mem_cons_self)

theorem ofNodes_induction {P : Predicate → Prop} (hconst : P (const true))
    (hand : ∀ l r, P l → P r → P (and l r)) (hor : ∀ l r, P l → P r → P (or l r)) :
    ∀ {ts : List (Node Predicate)}, (∀ q ∈ Node.leavesOf ts, P q) → ∀ q ∈ ofNodes ts, P q
  | [], _ => nofun
  | t :: ts, h => by
    rw [Node.leavesOf, List.forall_mem_append] at h
    rw [ofNodes, List.forall_mem_cons]
    exact ⟨ofNode_induction hconst hand hor h.1, ofNodes_induction hconst hand hor h.2⟩

end

end Predicate

/-! ## Constants -/

/-- A number begins with a digit, after its sign. -/
theorem Filter.IsNumber.exists_digit {s : List Char} (h : IsNumber s) :
    ∃ negative c body, spanSign s = (negative, c :: body) ∧ c.isDigit = true := by
  obtain ⟨sign, whole, fraction, rfl, hsign, ⟨hne, hwhole⟩, -⟩ := h
  cases whole with
  | nil => exact absurd rfl hne
  | cons c whole =>
    have hc := hwhole c List.mem_cons_self
    rcases hsign with rfl | rfl
    · refine ⟨false, c, whole ++ fraction, ?_, hc⟩
      rw [List.nil_append, List.cons_append, spanSign]
      all_goals
        intro s heq
        rw [(List.cons.inj heq).1] at hc
        cases hc
    · exact ⟨true, c, whole ++ fraction, rfl, hc⟩

namespace Kind

variable {k : Kind} {l : Literal} {v : Value}

theorem kind_of_ofText {s : List Char} (h : k.ofText s = some v) :
    v.kind = k ∧ k ≠ .other ∧ k ≠ .bool := by
  cases k with
  | bool | other => cases h
  | string =>
    cases h
    exact ⟨rfl, nofun, nofun⟩
  | _ =>
    obtain ⟨x, -, rfl⟩ := Option.map_eq_some_iff.1 h
    exact ⟨rfl, nofun, nofun⟩

theorem read_content_ne_nan {f : Format} {x : Binary f} (hl : l.Matches)
    (hfits : float64.fits l = true) (h : Binary.read (content l) = some x) : x ≠ .nan := by
  cases l with
  | number text =>
    obtain ⟨negative, c, body, hs, hc⟩ := Filter.IsNumber.exists_digit hl
    rintro rfl
    exact Binary.read_ne_nan hs hc h
  | _ => cases hfits

/-- An argument of the form of a kind is not NaN: the word for it is not a number. -/
theorem notNan_of_ofText (hl : l.Matches) (hfits : k.fits l = true)
    (h : k.ofText (content l) = some v) : v.NotNan := by
  cases k with
  | float32 =>
    obtain ⟨x, hx, rfl⟩ := Option.map_eq_some_iff.1 h
    exact read_content_ne_nan hl (by cases l <;> exact hfits) hx
  | float64 =>
    obtain ⟨x, hx, rfl⟩ := Option.map_eq_some_iff.1 h
    exact read_content_ne_nan hl hfits hx
  | bool | other => cases h
  | string =>
    cases h
    trivial
  | _ =>
    obtain ⟨x, -, rfl⟩ := Option.map_eq_some_iff.1 h
    trivial

end Kind

namespace Filter.Comparison

variable {c : Comparison} {p : Property} {vs : List Value} {q : Predicate} {e : Entity}

/-- The constants of a comparison are of the kind of its property. -/
theorem kind_of_values (hc : c.WellFormed) (h : c.values p = .ok vs) :
    ∀ v ∈ vs, (v.kind = p.kind ∧ v.NotNan) ∧ p.kind ≠ .other ∧ p.kind ≠ .bool := by
  intro v hv
  obtain ⟨l, hl, hfits, hread⟩ := exists_of_mem_values h hv
  obtain ⟨hkind, hkinds⟩ := Kind.kind_of_ofText hread
  -- the form of an argument and the shape of its text together keep NaN out
  have hnan := Kind.notNan_of_ofText (hc.arguments l hl) hfits hread
  exact ⟨⟨hkind, hnan⟩, hkinds⟩

theorem suits_of_value (hc : c.WellFormed) {r : Relation} {v : Value} (h : c.values p = .ok [v])
    (hordered : r.isOrder = true → p.kind.isOrdered = true) : r.Suits p v := by
  obtain ⟨⟨hkind, hnan⟩, hother, hbool⟩ := kind_of_values hc h v List.mem_cons_self
  exact ⟨hkind, hnan, hother, fun h => absurd h hbool, fun h => isOrdered_iff.1 (hordered h)⟩

theorem suits_of_values (hc : c.WellFormed) (h : c.values p = .ok vs) (hne : vs ≠ []) :
    p.SuitsList vs := by
  have hall := kind_of_values hc h
  obtain ⟨v, hv⟩ := List.exists_mem_of_ne_nil vs hne
  exact ⟨hne, fun v hv => (hall v hv).1, (hall v hv).2.1, (hall v hv).2.2⟩

/-- A truth value is the constant of a property that holds truth values. -/
theorem suits_bool (hkind : p.kind = .bool) (b : Bool) : Relation.eq.Suits p (.bool b) :=
  ⟨hkind.symm, trivial, by rw [hkind]; nofun, fun _ => rfl, nofun⟩

/-- **A comparison compiles to a well-typed predicate**, however patterns are reduced. -/
theorem wellTyped_compileBy {reduce : List Char → Like} (hc : c.WellFormed) (hp : p ∈ e.properties)
    (h : c.compileBy reduce p = .ok q) : q.WellTyped e := by
  rw [compileBy_eq_ok] at h
  cases hcomparator : c.comparator <;> simp only [hcomparator] at h
  case eq | neq =>
    obtain ⟨v, hv, rfl⟩ := h
    exact ⟨p, hp, rfl, suits_of_value hc hv nofun⟩
  case lt | le | gt | ge =>
    obtain ⟨hordered, v, hv, rfl⟩ := h
    exact ⟨p, hp, rfl, suits_of_value hc hv fun _ => hordered⟩
  case isNull | notNull =>
    obtain ⟨hnull, rfl⟩ := h
    exact ⟨p, hp, rfl, acceptsNull_iff.1 hnull⟩
  case isTrue | isFalse =>
    obtain ⟨hkind, rfl⟩ := h
    exact ⟨p, hp, rfl, suits_bool hkind _⟩
  case like =>
    obtain ⟨hkind, s, -, rfl⟩ := h
    exact ⟨p, hp, rfl, hkind⟩
  case within | without =>
    obtain ⟨vs, hvs, hne, rfl⟩ := h
    exact ⟨p, hp, rfl, suits_of_values hc hvs hne⟩

end Filter.Comparison

/-- A filter of well-formed comparisons compiles to a well-typed predicate. -/
theorem Filter.wellTyped_compile {f : Filter} {e : Entity} {n : Naming} {d : Like.Draws}
    {q : Predicate} (hf : ∀ c ∈ f.comparisons, c.WellFormed) (h : (f.compile e n d).1 = .ok q) :
    q.WellTyped e := by
  obtain ⟨t, ht, rfl⟩ := exists_rel_of_compile h
  refine Predicate.ofNode_induction trivial (fun _ _ hl hr => ⟨hl, hr⟩)
    (fun _ _ hl hr => ⟨hl, hr⟩) ?_
  intro q hq
  obtain ⟨c, hc, d', -, hcompile⟩ := ht.exists_leaf q hq
  obtain ⟨p, hp, hby⟩ := Comparison.compileIn_eq_ok.1 hcompile
  exact Comparison.wellTyped_compileBy (hf c hc) (Entity.property?_eq_some_iff.1 hp).1 hby

/-! ## Evaluation -/

/-- A well-typed predicate compares values of one kind. -/
theorem Predicate.WellTyped.eq_null_of_compare {e : Entity} {q : Predicate} (hq : q.WellTyped e)
    {j : Json} {r : Record} (hj : j.NanFree) (hr : Record.ofJson e j = .ok r) :
    ∀ x ∈ q.comparisons, (r.get x.1).compare x.2 = none → r.get x.1 = .null := by
  have hvalue {p : Property} {v : Value} (hp : p ∈ e.properties) (hkind : v.kind = p.kind)
      (hnan : v.NotNan) (hother : p.kind ≠ .other) (hnone : (r.get p.name).compare v = none) :
      r.get p.name = .null := by
    refine (Record.get_ofJson hj hr hp).resolve_right fun ⟨hget, hgetnan⟩ => ?_
    exact Value.compare_ne_none (hget.trans hkind.symm) (hkind ▸ hother) hgetnan hnan hnone
  induction q with
  | const | isNull | like => exact List.forall_mem_nil _
  | and l r ihl ihr | or l r ihl ihr => exact List.forall_mem_append.2 ⟨ihl hq.1, ihr hq.2⟩
  | not q ih => exact ih hq
  | compare name r v =>
    obtain ⟨p, hp, rfl, hsuits⟩ := hq
    exact List.forall_mem_singleton.2 (hvalue hp hsuits.kind hsuits.notNan hsuits.notOther)
  | within name vs =>
    obtain ⟨p, hp, rfl, hsuits⟩ := hq
    refine List.forall_mem_map.2 fun v hv => ?_
    obtain ⟨hkind, hnan⟩ := hsuits.constants v hv
    exact hvalue hp hkind hnan hsuits.notOther

/-- **Compiled filters are sound for their types.** Whatever a session has done before, a filter
text that compiles gives a well-typed predicate. Evaluated against a record that was read by the
same declaration, a comparison is without an answer only for an absent value, so that the answers of
the order elsewhere do not matter; and a text property is never asked for a pattern that is no
text. -/
theorem compile_wellTyped (registry : Registry) (settings : Settings) (draws : Like.Draws)
    (steps : List Session.Step) (now : Nat) (entity : String) (n : Naming) (text : String)
    (q : Predicate)
    (h : (((Session.Timed.start registry settings draws).run steps).2.session.compile now entity n
      text).1 = .ok q) :
    ∃ e, registry.get? entity = some e ∧ q.WellTyped e ∧
      (∀ (j : Json) (r : Record), j.NanFree → Record.ofJson e j = .ok r →
        (∀ x ∈ q.comparisons, (r.get x.1).compare x.2 = none → r.get x.1 = .null) ∧
        ∀ order : Value → Value → Option Ordering,
          (∀ a b, a = .null ∨ a.compare b ≠ none → order a b = a.compare b) →
          q.evaluateBy order r.get = q.evaluate r.get) ∧
      ∀ (c : Comparison) (p : Property) (v : Value),
        p.kind = .string → c.value p = .ok v → ∃ s, v = .string s := by
  have hs := (Session.Agrees.run (t := .start registry settings draws) Session.agrees_start steps).2
  -- the past of the session does not matter to the answer
  obtain ⟨d, -, -, hanswer⟩ := (hs.compile now entity n text).1
  obtain ⟨f, e, hread, he, hcompile⟩ := Registry.compileText_eq_ok.1 (hanswer.symm.trans h)
  have hq := wellTyped_compile (wellFormed_of_read hread) hcompile
  refine ⟨e, he, hq, ?_, fun c p v hp => Comparison.string_of_value hp⟩
  intro j r hj hr
  have hnull := hq.eq_null_of_compare hj hr
  refine ⟨hnull, fun order horder => Predicate.evaluateBy_eq fun x hx => horder _ _ ?_⟩
  by_cases hnone : (r.get x.1).compare x.2 = none
  · exact .inl (hnull x hx hnone)
  · exact .inr hnone

/-- A constant with a fraction, and a record in which a whole number stands for a float. -/
theorem compile_wellTyped_score :
    let user : Entity := ⟨"User", [{ name := "Score", kind := .float64 }], by decide⟩
    let registry : Registry := ⟨[user], by decide⟩
    let s := ((Session.Timed.start registry {} (.counted 0)).run [.sweep]).2.session
    let q : Predicate := .compare "Score" .gt (.float64 (Binary.ofScientific true 15 (-1)))
    let r : Record := ⟨"User", [⟨"Score", .float64 (Binary.ofInt 21)⟩]⟩
    (s.compile 7 "User" .asIs "Score>-1.5").1 = .ok q ∧ q.WellTyped user ∧
      ∃ j, Json.read "\x7b\"Score\": 21\x7d".toList = some j ∧ Record.ofJson user j = .ok r ∧
        ∀ x ∈ q.comparisons, (r.get x.1).compare x.2 = none → r.get x.1 = .null := by
  intro user registry s q r
  let j : Json := .object [("Score", .number (.integer 21))]
  have hq : (s.compile 7 "User" .asIs "Score>-1.5").1 = .ok q := by
    have hs := (Session.Agrees.run (t := .start registry {} (.counted 0)) Session.agrees_start
      [.sweep]).2
    obtain ⟨d, -, -, hanswer⟩ := (hs.compile 7 "User" .asIs "Score>-1.5").1
    have hread : read "Score>-1.5" =
        .ok (.or [.and [.leaf ⟨"Score", .gt, [.number "-1.5"], ⟨0, 10, 1, 1⟩⟩]]) := by cbv
    rw [hanswer, Registry.compileText, hread]
    rfl
  have hj : Json.read "\x7b\"Score\": 21\x7d".toList = some j := by
    have hraw : Json.Raw.read "\x7b\"Score\": 21\x7d".toList =
        some (.object [("Score".toList.map .char, .number ⟨false, ['2', '1'], [], none⟩)]) := by
      cbv
    rw [Json.read, hraw]
    rfl
  have hr : Record.ofJson user j = .ok r := rfl
  obtain ⟨e, he, hwell, hrecord, -⟩ :=
    compile_wellTyped registry {} (.counted 0) [.sweep] 7 "User" .asIs "Score>-1.5" q hq
  obtain rfl : user = e := Option.some.inj he
  exact ⟨hq, hwell, j, hj, hr, (hrecord j r (Json.nanFree_of_read hj) hr).1⟩

end RecordFilter

import RecordFilter.Proofs.Compile.Meaning
import RecordFilter.Proofs.Compile.Quoted
import RecordFilter.Proofs.Compile.WellTyped

/-!
# How tests of one property relate

The comparisons of one property are not independent of each other. The six relations with one
constant part the records into those below, at and above it (`tests_partition_records`), and a set
test is the fold of the equality tests with its members (`set_tests_fold`).

Both rest on the constants: a comparison has the same constants under every comparator, as they
depend on the arguments and the kind of the property alone (`values_congr`), and the constants of a
list are those of its members (`values_of_reads`).
-/

namespace RecordFilter

open RecordFilter.Calendar RecordFilter.Filter

/-! ## Single comparisons -/

/-- The text is one comparison, laid out in any way. -/
def Filter.Asks (text selector : String) (comparator : Comparator) (arguments : List Literal) :
    Prop :=
  ∃ span, read text = .ok (.or [.and [.leaf ⟨selector, comparator, arguments, span⟩]])

/-- The argument may follow the comparator directly. -/
theorem Filter.asks_bare {selector : String} {l : Literal} (hselector : IsSelector selector.toList)
    (hl : l.Matches) (comparator : Comparator) :
    Asks (selector ++ comparator.spelling ++ l.text) selector comparator [l] := by
  have hwritten : Arguments [l] l.text.toList [] := by
    refine .one ?_ ⟨fun _ => stops_nil, fun _ _ => rfl⟩
    rw [List.append_nil]
    exact .refl
  obtain ⟨span, hread⟩ := read_single hselector (Comparator.ofToken?_spelling comparator)
    (List.forall_mem_singleton.2 hl) hwritten
  rw [String.ofList_toList] at hread
  exact ⟨span, hread⟩

namespace Filter.Comparison

variable {reduce : List Char → Like} {c d : Comparison} {e : Entity} {n : Naming} {p : Property}
  {vs : List Value}

theorem compileIn_of_property (hp : e.property? (n.propertyName c.selector) = some p) :
    c.compileIn reduce e n = c.compileBy reduce p := by
  unfold compileIn Entity.resolve
  rw [hp]

/-- The constants depend on the arguments alone. -/
theorem values_congr (h : c.arguments = d.arguments) :
    c.values p = .ok vs ↔ d.values p = .ok vs := by
  rw [values_eq_ok, values_eq_ok, fitting, fitting, h]

end Filter.Comparison

/-- What a text that is one comparison compiles to. -/
theorem Registry.compileText_of_asks {registry : Registry} {entity selector text : String}
    {n : Naming} {e : Entity} {p : Property} {comparator : Comparator} {arguments : List Literal}
    (he : registry.get? entity = some e) (hp : e.property? (n.propertyName selector) = some p)
    (h : Asks text selector comparator arguments) :
    ∃ c : Comparison, c.WellFormed ∧ c.comparator = comparator ∧ c.arguments = arguments ∧
      ∀ d, (registry.compileText entity n text d).1 = c.compileBy d.read p := by
  obtain ⟨span, hread⟩ := h
  let c : Comparison := ⟨selector, comparator, arguments, span⟩
  have hmem : c ∈ comparisons (.or [.and [.leaf c]]) := by
    simp only [comparisons, Node.leaves, Node.leavesOf, List.append_nil, List.mem_singleton]
  refine ⟨c, wellFormed_of_read hread c hmem, rfl, rfl, fun d => ?_⟩
  rw [compileText, hread]
  dsimp only
  rw [Registry.compile, he]
  exact (compile_single c).trans (Comparison.compileIn_of_property (c := c) hp)

/-! ## Relations -/

/-- The comparator that asks for a relation. -/
def Relation.comparator : Relation → Comparator
  | eq => .eq
  | neq => .neq
  | lt => .lt
  | le => .le
  | gt => .gt
  | ge => .ge

namespace Filter.Comparison

variable {reduce : List Char → Like} {c d : Comparison} {p : Property} {q : Predicate}
  {r s : Relation}

/-- A relation with an ordered property compiles if there is one constant. -/
theorem compileBy_relation (hc : c.comparator = r.comparator) (hp : p.kind.isOrdered = true) :
    c.compileBy reduce p = .ok q ↔ ∃ v, c.values p = .ok [v] ∧ q = .compare p.name r v := by
  rw [compileBy_eq_ok, hc]
  cases r <;> simp only [Relation.comparator, hp, true_and]

/-- With the same arguments every relation compiles, to a test against the same constant. -/
theorem exists_constant (hc : c.comparator = r.comparator) (hp : p.kind.isOrdered = true)
    (hwell : c.WellFormed) (h : c.compileBy reduce p = .ok q) :
    ∃ v, v.kind = p.kind ∧ v.NotNan ∧ ∀ (d : Comparison) (s : Relation) (reduce),
      d.comparator = s.comparator → d.arguments = c.arguments →
        d.compileBy reduce p = .ok (.compare p.name s v) := by
  obtain ⟨v, hv, -⟩ := (compileBy_relation hc hp).1 h
  obtain ⟨⟨hkind, hnan⟩, -⟩ := kind_of_values hwell hv v List.mem_cons_self
  refine ⟨v, hkind, hnan, fun d s reduce hd harguments => ?_⟩
  exact (compileBy_relation hd hp).2 ⟨v, (values_congr harguments).2 hv, rfl⟩

end Filter.Comparison

/-- Two values that compare are in one of three relations, and the other relations follow. -/
theorem Relation.admits_some (o : Ordering) :
    [lt.admits (some o), eq.admits (some o), gt.admits (some o)].count true = 1 := by
  cases o <;> decide

/-- Without an order only the negation of equality holds. -/
theorem Relation.admits_none (r : Relation) : r.admits none = decide (r = .neq) := by
  cases r <;> decide

/-! ## Truth values -/

/-- What asks for an absent value or for a truth value. -/
def truthTests : List Comparator := [.isNull, .notNull, .isTrue, .isFalse]

/-- The predicate of such a comparison, which has no constant of its own. -/
def Predicate.truthTest (name : String) : Comparator → Predicate
  | .isNull => .isNull name
  | .notNull => .not (.isNull name)
  | .isTrue => .compare name .eq (.bool true)
  | _ => .compare name .eq (.bool false)

/-- All of them can be asked of a property that is a truth value or absent, with any arguments. -/
theorem Filter.Comparison.compileBy_truthTest {reduce : List Char → Like} {c : Comparison}
    {p : Property} (hc : c.comparator ∈ truthTests) (hkind : p.kind = .bool)
    (hnullable : p.nullable = true) :
    c.compileBy reduce p = .ok (.truthTest p.name c.comparator) := by
  have hnull : p.acceptsNull = true := by rw [Property.acceptsNull, hnullable, Bool.true_or]
  rw [compileBy_eq_ok]
  simp only [truthTests, List.mem_cons, List.not_mem_nil, or_false] at hc
  rcases hc with hc | hc | hc | hc <;> simp only [hc]
  · exact ⟨hnull, rfl⟩
  · exact ⟨hnull, rfl⟩
  · exact ⟨hkind, rfl⟩
  · exact ⟨hkind, rfl⟩

/-- An absent value, truth and untruth are told apart. -/
theorem Predicate.truthTest_partition {get : String → Value} {name : String}
    (h : get name = .null ∨ ∃ b, get name = .bool b) :
    let holds (c : Comparator) := (truthTest name c).evaluate get
    [holds .isNull, holds .isTrue, holds .isFalse].count true = 1 := by
  rcases h with h | ⟨b, h⟩
  · simp only [truthTest, evaluate, h]
    decide
  · simp only [truthTest, evaluate, h]
    cases b <;> decide

/-! ## Order and null tests -/

/-- **Order tests and null tests part the records.** Whatever a session has done before, take a
record that was read by the declaration of an entity.

* The six relations of an ordered property with one literal compile together or not at all. If the
  record has a value there, exactly one of `<`, `==` and `>` is true of it, and if not, `!=` alone
  is; `<=`, `>=` and `!=` are what they say in terms of the other three.
* Of a nullable property that holds truth values, exactly one of `=isnull=`, `=istrue=` and
  `=isfalse=` is true, and `=isnotnull=` is true if `=isnull=` is not. -/
theorem tests_partition_records (registry : Registry) (settings : Settings) (draws : Like.Draws)
    (steps : List Session.Step) (now : Nat) (entity selector : String) (n : Naming) (e : Entity)
    (p : Property) (j : Json) (record : Record) (he : registry.get? entity = some e)
    (hp : p ∈ e.properties) (hselector : p.name = n.propertyName selector) (hj : j.NanFree)
    (hrecord : Record.ofJson e j = .ok record) :
    let session := ((Session.Timed.start registry settings draws).run steps).2.session
    let compile (text : String) := (session.compile now entity n text).1
    (p.kind.isOrdered = true → ∀ (l : Literal) (text : Relation → String),
      (∀ r, Asks (text r) selector r.comparator [l]) → (∃ r q, compile (text r) = .ok q) →
      ∃ q : Relation → Predicate, (∀ r, compile (text r) = .ok (q r)) ∧
        let holds (r : Relation) := (q r).evaluate record.get
        (record.get p.name ≠ .null → [holds .lt, holds .eq, holds .gt].count true = 1) ∧
        (record.get p.name = .null → ∀ r, holds r = decide (r = .neq)) ∧
        holds .le = (holds .lt || holds .eq) ∧ holds .ge = (holds .gt || holds .eq) ∧
        holds .neq = !holds .eq) ∧
    (p.kind = .bool → p.nullable = true → ∀ (text : Comparator → String),
      (∀ c ∈ truthTests, ∃ ls, Asks (text c) selector c ls) →
      ∃ q : Comparator → Predicate,
        (∀ c ∈ truthTests, compile (text c) = .ok (q c)) ∧
        let holds (c : Comparator) := (q c).evaluate record.get
        [holds .isNull, holds .isTrue, holds .isFalse].count true = 1 ∧
        holds .notNull = !holds .isNull) := by
  intro session compile
  have hs := (Session.Agrees.run (t := .start registry settings draws) Session.agrees_start steps).2
  have hcompile (text : String) : ∃ d, compile text = (registry.compileText entity n text d).1 := by
    obtain ⟨d, -, -, hanswer⟩ := (hs.compile now entity n text).1
    exact ⟨d, hanswer⟩
  have hproperty : e.property? (n.propertyName selector) = some p :=
    Entity.property?_eq_some_iff.2 ⟨hp, hselector⟩
  have hget := Record.get_ofJson hj hrecord hp
  refine ⟨fun hordered l text htext ⟨r, q, hq⟩ => ?_, fun hkind hnullable text htext => ?_⟩
  · obtain ⟨c, hwell, hc, harguments, hfor⟩ :=
      Registry.compileText_of_asks he hproperty (htext r)
    obtain ⟨d, hd⟩ := hcompile (text r)
    rw [hd, hfor] at hq
    obtain ⟨v, hvkind, hvnan, hall⟩ := Comparison.exists_constant hc hordered hwell hq
    refine ⟨fun s => .compare p.name s v, fun s => ?_, ?_, ?_, rfl, rfl, rfl⟩
    · obtain ⟨c', -, hc', harguments', hfor'⟩ :=
        Registry.compileText_of_asks he hproperty (htext s)
      obtain ⟨d', hd'⟩ := hcompile (text s)
      rw [hd', hfor']
      exact hall c' s _ hc' (harguments'.trans harguments.symm)
    · intro hpresent
      obtain ⟨hgetkind, hgetnan⟩ := hget.resolve_left hpresent
      have hother : v.kind ≠ .other := by
        rw [hvkind]
        rintro hother
        rw [hother] at hordered
        cases hordered
      obtain ⟨o, ho⟩ := Option.ne_none_iff_exists'.1
        (Value.compare_ne_none (hgetkind.trans hvkind.symm) hother hgetnan hvnan)
      simp only [Predicate.evaluate, ho]
      exact Relation.admits_some o
    · intro habsent s
      simp only [Predicate.evaluate, habsent, Value.compare_null]
      exact Relation.admits_none s
  · refine ⟨Predicate.truthTest p.name, fun c hc => ?_, ?_, rfl⟩
    · obtain ⟨ls, hls⟩ := htext c hc
      obtain ⟨c', -, rfl, -, hfor⟩ := Registry.compileText_of_asks he hproperty hls
      obtain ⟨d, hd⟩ := hcompile (text c'.comparator)
      rw [hd, hfor, Comparison.compileBy_truthTest hc hkind hnullable]
    · refine Predicate.truthTest_partition (hget.imp_right fun hvalue => ?_)
      have hgetkind := hvalue.1.trans hkind
      cases hvalue : record.get p.name <;> rw [hvalue] at hgetkind <;> cases hgetkind
      exact ⟨_, rfl⟩

/-- The leap second before a year, against the year. -/
theorem tests_partition_records_leap_second :
    let p : Property := { name := "CreatedAt", kind := .dateTime, nullable := true }
    let user : Entity := ⟨"User", [p], by decide⟩
    let registry : Registry := ⟨[user], by decide⟩
    let j : Json := .object [("CreatedAt", .string "2016-12-31T23:59:60Z")]
    let session := ((Session.Timed.start registry {} (.counted 0)).run []).2.session
    let compile (text : String) := (session.compile 0 "User" .asIs text).1
    let text (r : Relation) := "CreatedAt" ++ r.comparator.spelling ++ "2017-01-01"
    ∃ record, Record.ofJson user j = .ok record ∧ record.get "CreatedAt" ≠ .null ∧
      ∃ q : Relation → Predicate, (∀ r, compile (text r) = .ok (q r)) ∧
        [(q .lt).evaluate record.get, (q .eq).evaluate record.get,
          (q .gt).evaluate record.get].count true = 1 := by
  intro p user registry j session compile text
  let t : DateTime :=
    { date := ⟨2016, 12, 31, by decide⟩, second := 86399, nano := 1000000000
      second_lt := by decide, nano_lt := by decide, leap := fun _ => by decide }
  let record : Record := ⟨"User", [⟨"CreatedAt", .dateTime t⟩]⟩
  have hrecord : Record.ofJson user j = .ok record := by cbv
  have hpresent : record.get "CreatedAt" ≠ .null := fun h => by cases h
  have hselector : IsSelector "CreatedAt".toList :=
    ⟨'C', "reatedAt".toList, rfl, rfl, run_of_all rfl⟩
  have hdate : Literal.Matches (.date "2017-01-01") := isDate_iff.1 rfl
  have huser : registry.get? "User" = some user := rfl
  have hproperty : user.property? (Naming.asIs.propertyName "CreatedAt") = some p := rfl
  have hvalue : coerce p.kind [.date "2017-01-01"] =
      .ok (some [.dateTime (.midnight ⟨2017, 1, 1, by decide⟩)]) := by cbv
  have hs := (Session.Agrees.run (t := .start registry {} (.counted 0)) Session.agrees_start []).2
  obtain ⟨d, -, -, hanswer⟩ := (hs.compile 0 "User" .asIs (text .eq)).1
  have hcompiles := compileText_equality d huser hproperty hselector hdate
    ⟨fun _ => stops_nil, fun _ _ => rfl⟩ hvalue
  obtain ⟨horder, -⟩ := tests_partition_records registry {} (.counted 0) [] 0 "User" "CreatedAt"
    .asIs user p j record huser (by simp [user]) rfl (by trivial) hrecord
  obtain ⟨q, hq, hpartition, -⟩ := horder rfl (.date "2017-01-01") text
    (fun r => asks_bare hselector hdate r.comparator)
    ⟨.eq, _, hanswer.trans hcompiles⟩
  exact ⟨record, hrecord, hpresent, q, hq, hpartition hpresent⟩

/-! ## Set tests -/

/-- The argument has the form of the kind and is this value. -/
def Kind.Reads (k : Kind) (l : Literal) (v : Value) : Prop :=
  k.fits l = true ∧ k.ofText (content l) = some v

namespace Filter.Comparison

variable {reduce : List Char → Like} {c : Comparison} {p : Property}

/-- The constants of a list of arguments are those of its members. -/
theorem values_of_reads {value : Literal → Value}
    (h : ∀ l ∈ c.arguments, p.kind.Reads l (value l)) :
    c.values p = .ok (c.arguments.map value) := by
  have hfitting : c.fitting p = c.arguments := List.filter_eq_self.2 fun l hl => (h l hl).1
  rw [values_eq_ok, hfitting, List.forall₂_map_right_iff, List.forall₂_same]
  exact fun l hl => (h l hl).2

/-- The only argument is the only constant. -/
theorem reads_of_values {l : Literal} {v : Value} (hl : c.arguments = [l])
    (h : c.values p = .ok [v]) : p.kind.Reads l v := by
  rw [values_eq_ok, fitting, hl, List.filter_singleton] at h
  cases hfits : p.kind.fits l with
  | false =>
    rw [hfits] at h
    cases h
  | true =>
    rw [hfits] at h
    exact ⟨hfits, (List.forall₂_cons.1 h).1⟩

/-- If each of some arguments is enough for an equality test, they have one constant each, alone as
in a list. -/
theorem exists_values {selector : String} {ls : List Literal}
    (h : ∀ l ∈ ls, ∃ span q, compileBy reduce ⟨selector, .eq, [l], span⟩ p = .ok q) :
    ∃ value : Literal → Value,
      (∀ c : Comparison, c.arguments = ls → c.values p = .ok (ls.map value)) ∧
      ∀ l ∈ ls, ∀ c : Comparison, c.arguments = [l] → c.values p = .ok [value l] := by
  have hreads : ∀ l ∈ ls, ∃ v, p.kind.Reads l v := by
    intro l hl
    obtain ⟨span, q, hq⟩ := h l hl
    rw [compileBy_eq_ok] at hq
    obtain ⟨v, hv, -⟩ := hq
    exact ⟨v, reads_of_values rfl hv⟩
  have : Nonempty Value := ⟨.null⟩
  choose! value hvalue using hreads
  refine ⟨value, fun c hc => ?_, fun l hl c hc => ?_⟩
  · subst hc
    exact values_of_reads hvalue
  · have hread : ∀ a ∈ c.arguments, p.kind.Reads a (value a) := by
      rw [hc]
      exact List.forall_mem_singleton.2 (hvalue l hl)
    rw [values_of_reads hread, hc]
    rfl

end Filter.Comparison

namespace Registry

variable {registry : Registry} {entity : String} {n : Naming} {c : Comparison} {d d' : Like.Draws}

theorem compile_single : (registry.compile entity n (.or [.and [.leaf c]]) d).1 =
    (registry.compile entity n (.leaf c) d).1 := by
  unfold Registry.compile
  cases registry.get? entity with
  | none => rfl
  | some e => exact (Filter.compile_single c).trans (Filter.compile_leaf c).symm

/-- A comparison without a pattern compiles to the same whatever is drawn. -/
theorem compile_leaf_congr (hc : c.comparator ≠ .like) :
    (registry.compile entity n (.leaf c) d).1 = (registry.compile entity n (.leaf c) d').1 := by
  have hhidden (d : Like.Draws) : Hidden d (.leaf c) := by
    intro pattern hpattern
    rw [Filter.patterns, comparisons, Node.leaves, List.flatMap_singleton, Comparison.patterns,
      if_neg hc] at hpattern
    cases hpattern
  exact compile_congr (hhidden d) (hhidden d')

/-- Where a comparison compiles, its selector stands for a property, and all comparisons with this
selector compile as comparisons with that property. -/
theorem exists_property {q : Predicate} (h : (registry.compile entity n (.leaf c) d).1 = .ok q) :
    ∃ p : Property, ∀ c' : Comparison, c'.selector = c.selector →
      (registry.compile entity n (.leaf c') d).1 = c'.compileBy d.read p := by
  obtain ⟨e, he, h⟩ := compile_eq_ok.1 h
  obtain ⟨p, hp, -⟩ := Comparison.compileIn_eq_ok.1 ((Filter.compile_leaf c).symm.trans h)
  refine ⟨p, fun c' hselector => ?_⟩
  rw [← hselector] at hp
  rw [Registry.compile, he]
  exact (Filter.compile_leaf c').trans (Comparison.compileIn_of_property hp)

end Registry

/-- **Set tests are folds of equality tests.** Whatever a session has done before, if the equality
tests of a selector with each of some literals compile, so do the set tests with all of them. On any
assignment of values, absent ones too, `=in=` is the disjunction of the tests `==` and `=out=` the
conjunction of the tests `!=`, and one is the negation of the other. A text that is one comparison
compiles as this comparison, so all this is true of texts as well; only a cached pattern may have
been reduced with other markers. -/
theorem set_tests_fold (registry : Registry) (settings : Settings) (draws : Like.Draws)
    (steps : List Session.Step) (now : Nat) (entity selector : String) (n : Naming)
    (ls : List Literal) (hne : ls ≠ []) :
    let session := ((Session.Timed.start registry settings draws).run steps).2.session
    let compile (comparator : Comparator) (arguments : List Literal) (span : Span) :=
      (session.compileNode entity n (.leaf ⟨selector, comparator, arguments, span⟩)).1
    ((∀ l ∈ ls, ∃ span q, compile .eq [l] span = .ok q) →
      ∃ within without eqs neqs,
        (∀ span, compile .within ls span = .ok within ∧ compile .without ls span = .ok without) ∧
        List.Forall₂ (fun l q => ∀ span, compile .eq [l] span = .ok q) ls eqs ∧
        List.Forall₂ (fun l q => ∀ span, compile .neq [l] span = .ok q) ls neqs ∧
        ∀ get, within.evaluate get = eqs.any (·.evaluate get) ∧
          without.evaluate get = neqs.all (·.evaluate get) ∧
          without.evaluate get = !within.evaluate get) ∧
    ∀ text comparator arguments, Asks text selector comparator arguments →
      ∃ span,
        (comparator ≠ .like →
          (session.compile now entity n text).1 = compile comparator arguments span) ∧
        ∃ d : Like.Draws, draws.Leads d ∧ (session.compile now entity n text).1 =
          ((Session.start registry settings d).compileNode entity n
            (.leaf ⟨selector, comparator, arguments, span⟩)).1 := by
  intro session compile
  have hs := (Session.Agrees.run (t := .start registry settings draws) Session.agrees_start steps).2
  have hcompile : ∀ comparator arguments span, compile comparator arguments span =
      (registry.compile entity n (.leaf ⟨selector, comparator, arguments, span⟩)
        session.draws).1 :=
    fun comparator arguments span => (hs.compileNode entity n _).1
  refine ⟨fun hall => ?_, fun text comparator arguments ⟨span, hread⟩ => ⟨span, ?_⟩⟩
  · obtain ⟨first, hfirst⟩ := List.exists_mem_of_ne_nil ls hne
    obtain ⟨span, q, hq⟩ := hall first hfirst
    rw [hcompile] at hq
    obtain ⟨p, hproperty⟩ := Registry.exists_property hq
    have hfor : ∀ comparator arguments span, compile comparator arguments span =
        Comparison.compileBy session.draws.read ⟨selector, comparator, arguments, span⟩ p :=
      fun comparator arguments span =>
        (hcompile comparator arguments span).trans (hproperty _ rfl)
    obtain ⟨value, hlist, hsingle⟩ := Comparison.exists_values (p := p)
      fun l hl => (hall l hl).imp fun span ⟨q, hq⟩ => ⟨q, (hfor _ _ _).symm.trans hq⟩
    have hmap : ls.map value ≠ [] := mt List.map_eq_nil_iff.1 hne
    refine ⟨.within p.name (ls.map value), .not (.within p.name (ls.map value)),
      ls.map fun l => .compare p.name .eq (value l), ls.map fun l => .compare p.name .neq (value l),
      fun span => ⟨?_, ?_⟩, ?_, ?_, fun get => ⟨?_, ?_, rfl⟩⟩
    · rw [hfor, Comparison.compileBy_eq_ok]
      exact ⟨_, hlist _ rfl, hmap, rfl⟩
    · rw [hfor, Comparison.compileBy_eq_ok]
      exact ⟨_, hlist _ rfl, hmap, rfl⟩
    · rw [List.forall₂_map_right_iff, List.forall₂_same]
      intro l hl span
      rw [hfor, Comparison.compileBy_eq_ok]
      exact ⟨_, hsingle l hl _ rfl, rfl⟩
    · rw [List.forall₂_map_right_iff, List.forall₂_same]
      intro l hl span
      rw [hfor, Comparison.compileBy_eq_ok]
      exact ⟨_, hsingle l hl _ rfl, rfl⟩
    · rw [Predicate.evaluate, List.any_map, List.any_map]
      rfl
    · rw [Predicate.evaluate, Predicate.evaluate, List.any_map, List.not_any_eq_all_not,
        List.all_map]
      rfl
  · obtain ⟨d, hleads, -, hanswer⟩ := (hs.compile now entity n text).1
    rw [Registry.compileText, hread] at hanswer
    have hleaf := hanswer.trans Registry.compile_single
    refine ⟨fun hcomparator => ?_, d, hleads, hleaf.trans (Session.compileNode_start _).symm⟩
    rw [hcompile, hleaf]
    exact Registry.compile_leaf_congr hcomparator

/-- Two texts, of which one is written with an escaped quote. -/
theorem set_tests_fold_escaped :
    let user : Entity := ⟨"User", [{ name := "Name", kind := .string }], by decide⟩
    let registry : Registry := ⟨[user], by decide⟩
    let session := ((Session.Timed.start registry {} (.counted 0)).run [.sweep]).2.session
    let compile (comparator : Comparator) (arguments : List Literal) (span : Span) :=
      (session.compileNode "User" .asIs (.leaf ⟨"Name", comparator, arguments, span⟩)).1
    let ls : List Literal := [.quoted "'it\\'s'", .bare "x"]
    ls ≠ [] ∧ (∀ l ∈ ls, ∃ span q, compile .eq [l] span = .ok q) ∧
      ∃ within without eqs,
        (∀ span, compile .within ls span = .ok within ∧ compile .without ls span = .ok without) ∧
        List.Forall₂ (fun l q => ∀ span, compile .eq [l] span = .ok q) ls eqs ∧
        within.evaluate (fun _ => .null) = eqs.any (·.evaluate fun _ => .null) ∧
        without.evaluate (fun _ => .null) = !within.evaluate fun _ => .null := by
  intro user registry session compile ls
  have hne : ls ≠ [] := List.cons_ne_nil _ _
  have hcompiles : ∀ l ∈ ls, ∃ span q, compile .eq [l] span = .ok q := by
    refine List.forall_mem_cons.2 ⟨⟨⟨0, 14, 1, 1⟩, .compare "Name" .eq (.string "it's"), ?_⟩,
      List.forall_mem_singleton.2 ⟨⟨0, 7, 1, 1⟩, .compare "Name" .eq (.string "x"), ?_⟩⟩
    · cbv
    · cbv
  obtain ⟨hfold, -⟩ := set_tests_fold registry {} (.counted 0) [.sweep] 0 "User" "Name" .asIs
    ls hne
  obtain ⟨within, without, eqs, neqs, hset, heqs, -, heval⟩ := hfold hcompiles
  obtain ⟨hwithin, -, hwithout⟩ := heval fun _ => .null
  exact ⟨hne, hcompiles, within, without, eqs, hset, heqs, hwithin, hwithout⟩

end RecordFilter

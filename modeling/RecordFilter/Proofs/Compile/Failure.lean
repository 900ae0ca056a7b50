import Mathlib
import RecordFilter.Proofs.Schema.Names
import RecordFilter.Proofs.Session.Memory

/-!
# Why a filter does not compile

`Comparison.Fails` lists the reasons for which a comparison does not compile, each under the
condition that no reason before it applies. Compiling a comparison fails exactly with these errors
(`compileIn_eq_error`), and a filter fails with the error of its first comparison that fails
(`compileNode_eq_error_iff`).

The small compiling functions of a comparison get one statement each for their failures, as
`Outcome` has one for their successes.
-/

namespace RecordFilter

open RecordFilter.Filter

/-! ## Reasons -/

/-- The text of an argument is a value of the kind. -/
def Kind.Represents (k : Kind) (l : Literal) : Prop := ∃ v, k.ofText (content l) = some v

namespace Filter

/-- The comparator looks at its arguments. -/
def Comparator.takesArguments : Comparator → Bool
  | isNull | notNull | isTrue | isFalse => false
  | _ => true

/-- The comparator takes any number of arguments but none. -/
def Comparator.takesMany : Comparator → Bool
  | within | without => true
  | _ => false

/-- The comparator can be applied to the property. -/
def Comparator.Suits (p : Property) : Comparator → Prop
  | isNull | notNull => p.nullable = true ∨ p.kind = .string ∨ p.kind = .other
  | isTrue | isFalse => p.kind = .bool
  | lt | le | gt | ge => p.kind.isNumeric = true ∨ p.kind = .dateTime
  | like => p.kind = .string
  | eq | neq | within | without => True

namespace Comparison

/-- The selector stands for the property. -/
def Names (c : Comparison) (e : Entity) (n : Naming) (p : Property) : Prop :=
  p ∈ e.properties ∧ p.name = n.propertyName c.selector

/-- The error of a comparator that cannot be applied to the property. -/
def unsuited (c : Comparison) (p : Property) : CompileError :=
  .comparatorNotForKind c.selector c.comparator p.kind c.span

/-- What can be wrong with the arguments of a comparison. -/
inductive ArgumentFault (c : Comparison) (p : Property) (many : Bool) : CompileError → Prop
  | invalidValue {before after : List Literal} {l : Literal}
      (hsplit : c.fitting p = before ++ l :: after) (hbefore : ∀ b ∈ before, p.kind.Represents b)
      (hl : ¬ p.kind.Represents l) :
      ArgumentFault c p many (.invalidValue c.selector c.comparator l.text p.kind c.span)
  | notEnoughArguments (h : c.fitting p = []) :
      ArgumentFault c p many (.notEnoughArguments c.selector c.comparator c.span)
  | tooManyArguments (hall : ∀ l ∈ c.fitting p, p.kind.Represents l) (hmany : many = false)
      (h : 1 < (c.fitting p).length) :
      ArgumentFault c p many
        (.tooManyArguments c.selector c.comparator (c.fitting p).length c.span)

/-- The reasons for which a comparison does not compile, in the order in which they count. -/
inductive Fails (c : Comparison) (e : Entity) (n : Naming) : CompileError → Prop
  | propertyNotFound (h : ∀ p, ¬ c.Names e n p) :
      Fails c e n (.propertyNotFound e.name c.selector c.span)
  | comparator {p : Property} (hp : c.Names e n p) (h : ¬ c.comparator.Suits p) :
      Fails c e n (c.unsuited p)
  | arguments {p : Property} {err : CompileError} (hp : c.Names e n p)
      (h : c.comparator.Suits p) (htakes : c.comparator.takesArguments = true)
      (hfault : c.ArgumentFault p c.comparator.takesMany err) : Fails c e n err

end Comparison

end Filter

/-! ## Arguments -/

namespace Kind

variable {k : Kind} {l : Literal}

theorem ofLiteral_eq_error {err : CoercionError} :
    k.ofLiteral l = .error err ↔ ¬ k.Represents l ∧ err = ⟨l.text, k⟩ := by
  unfold ofLiteral Represents
  cases k.ofText (content l) <;> simp [eq_comm]

theorem allOk_ofLiteral {ls : List Literal} :
    Node.AllOk k.ofLiteral ls ↔ ∀ l ∈ ls, k.Represents l := by
  simp only [Node.AllOk, ofLiteral_eq_ok, Represents]

end Kind

section Coerce

variable {k : Kind} {ls : List Literal} {vs : List Value} (htakes : k.takesArguments = true)
include htakes

theorem coerce_eq_ok_iff : coerce k ls = .ok (some vs) ↔
    List.Forall₂ (fun l v => k.ofText (Kind.content l) = some v) (ls.filter k.fits) vs := by
  unfold coerce
  rw [if_pos htakes, bind_eq_ok_iff]
  simp only [← Kind.ofLiteral_eq_ok, ← mapM_eq_ok_iff]
  constructor
  · rintro ⟨us, hus, ⟨⟩⟩
    exact hus
  · exact fun hvs => ⟨vs, hvs, rfl⟩

theorem coerce_eq_error_iff {err : CoercionError} : coerce k ls = .error err ↔
    ∃ before l after, ls = before ++ l :: after ∧
      (∀ b ∈ before, k.fits b = true → k.Represents b) ∧
      k.fits l = true ∧ ¬ k.Represents l ∧ err = ⟨l.text, k⟩ := by
  unfold coerce
  rw [if_pos htakes, bind_eq_error_iff, mapM_eq_error_iff, Node.firstError_filter]
  simp only [Kind.ofLiteral_eq_ok, Kind.ofLiteral_eq_error]
  exact ⟨fun h => h.elim id (by rintro ⟨_, -, ⟨⟩⟩), .inl⟩

theorem exists_coerce_iff :
    (∃ vs, coerce k ls = .ok (some vs)) ↔ ∀ l ∈ ls, k.fits l = true → k.Represents l := by
  unfold coerce
  rw [if_pos htakes]
  simp only [← and_imp, ← List.mem_filter]
  rw [← Kind.allOk_ofLiteral, ← exists_mapM_eq_ok_iff]
  cases (ls.filter k.fits).mapM k.ofLiteral with
  | ok vs => exact ⟨fun _ => ⟨vs, rfl⟩, fun _ => ⟨vs, rfl⟩⟩
  | error err => exact ⟨nofun, nofun⟩

end Coerce

namespace Filter.Comparison

variable {reduce : List Char → Like} {c : Comparison} {p : Property} {vs : List Value}
  {err : CompileError}

theorem values_eq_error : c.values p = .error err ↔
    ∃ before l after, c.fitting p = before ++ l :: after ∧
      (∀ b ∈ before, p.kind.Represents b) ∧ ¬ p.kind.Represents l ∧
      err = .invalidValue c.selector c.comparator l.text p.kind c.span := by
  rw [values_eq]
  constructor
  · intro h
    cases hm : (c.fitting p).mapM p.kind.ofLiteral with
    | ok vs =>
      rw [hm] at h
      cases h
    | error e =>
      rw [hm] at h
      cases h
      obtain ⟨before, l, after, hsplit, hbefore, hl⟩ :=
        Node.firstError_iff_split.1 (mapM_eq_error_iff.1 hm)
      obtain ⟨hnot, rfl⟩ := Kind.ofLiteral_eq_error.1 hl
      exact ⟨before, l, after, hsplit, Kind.allOk_ofLiteral.1 hbefore, hnot, rfl⟩
  · rintro ⟨before, l, after, hsplit, hbefore, hl, rfl⟩
    have hm : (c.fitting p).mapM p.kind.ofLiteral = .error ⟨l.text, p.kind⟩ :=
      mapM_eq_error_iff.2 (Node.firstError_iff_split.2 ⟨before, l, after, hsplit,
        Kind.allOk_ofLiteral.2 hbefore, Kind.ofLiteral_eq_error.2 ⟨hl, rfl⟩⟩)
    rw [hm]

/-- The values of a comparison are as many as its fitting arguments. -/
theorem length_values (h : c.values p = .ok vs) : vs.length = (c.fitting p).length :=
  (values_eq_ok.1 h).length_eq.symm

/-- There are values exactly if every fitting argument is one. -/
theorem exists_values_iff :
    (∃ vs, c.values p = .ok vs) ↔ ∀ l ∈ c.fitting p, p.kind.Represents l := by
  rw [← Kind.allOk_ofLiteral, ← exists_mapM_eq_ok_iff, values_eq]
  cases (c.fitting p).mapM p.kind.ofLiteral <;> simp

theorem values_eq_nil_iff : c.values p = .ok [] ↔ c.fitting p = [] := by
  rw [values_eq_ok, List.forall₂_nil_right_iff]

/-- The argument of a text property is a text, so there is always a pattern to be read. -/
theorem string_of_value (hkind : p.kind = .string) {v : Value} (h : c.value p = .ok v) :
    ∃ s, v = .string s := by
  have hread := values_eq_ok.1 (value_eq_ok.1 h)
  generalize c.fitting p = ls at hread
  cases hread with
  | cons hv _ =>
    rw [hkind] at hv
    exact ⟨_, (Option.some.inj hv).symm⟩

/-! ## What fails -/

theorem value_eq_error : c.value p = .error err ↔ c.ArgumentFault p false err := by
  unfold value
  rw [bind_eq_error_iff, values_eq_error]
  constructor
  · rintro (⟨before, l, after, hsplit, hbefore, hl, rfl⟩ | ⟨vs, hvs, h⟩)
    · exact .invalidValue hsplit hbefore hl
    · split at h
      · cases h
        exact .notEnoughArguments (values_eq_nil_iff.1 hvs)
      · cases h
      · next hnil hone =>
        cases h
        have hlength : 1 < vs.length := by
          match vs, hnil, hone with
          | [], hnil, _ => exact absurd rfl hnil
          | [v], _, hone => exact absurd rfl (hone v)
          | _ :: _ :: _, _, _ => simp
        rw [length_values hvs] at hlength ⊢
        exact .tooManyArguments (exists_values_iff.1 ⟨vs, hvs⟩) rfl hlength
  · rintro (⟨hsplit, hbefore, hl⟩ | hnil | ⟨hall, -, hlength⟩)
    · exact .inl ⟨_, _, _, hsplit, hbefore, hl, rfl⟩
    · exact .inr ⟨[], values_eq_nil_iff.2 hnil, rfl⟩
    · obtain ⟨vs, hvs⟩ := exists_values_iff.2 hall
      refine .inr ⟨vs, hvs, ?_⟩
      rw [← length_values hvs] at hlength ⊢
      match vs, hlength with
      | _ :: _ :: _, _ => rfl

theorem someValues_eq_error : c.someValues p = .error err ↔ c.ArgumentFault p true err := by
  unfold someValues
  rw [bind_eq_error_iff, values_eq_error]
  constructor
  · rintro (⟨before, l, after, hsplit, hbefore, hl, rfl⟩ | ⟨vs, hvs, h⟩)
    · exact .invalidValue hsplit hbefore hl
    · split at h
      · cases h
        exact .notEnoughArguments (values_eq_nil_iff.1 hvs)
      · cases h
  · rintro (⟨hsplit, hbefore, hl⟩ | hnil | ⟨-, ⟨⟩, -⟩)
    · exact .inl ⟨_, _, _, hsplit, hbefore, hl, rfl⟩
    · exact .inr ⟨[], values_eq_nil_iff.2 hnil, rfl⟩

theorem require_eq_error {allowed : Bool} :
    c.require p allowed = .error err ↔ allowed = false ∧ err = c.unsuited p := by
  unfold require unsuited
  cases allowed <;> simp [eq_comm]

/-- What is done under a requirement fails for want of it, or else by itself. -/
theorem require_bind_eq_error {α : Type} {allowed : Bool} {suits : Prop}
    (hallowed : allowed = true ↔ suits) {x : Except CompileError α} :
    (do c.require p allowed; x) = Except.error err ↔
      ¬ suits ∧ err = c.unsuited p ∨ suits ∧ x = .error err := by
  rw [bind_eq_error_iff, require_eq_error, ← hallowed, Bool.not_eq_true]
  simp only [require_eq_ok, exists_const]

theorem relate_eq_error {r : Relation} :
    c.relate p r = .error err ↔ c.ArgumentFault p false err :=
  bind_return_eq_error.trans value_eq_error

/-- A pattern fails only with its argument: the argument of a text property is a text. -/
theorem pattern_eq_error (hkind : p.kind = .string) :
    c.pattern p = .error err ↔ c.ArgumentFault p false err := by
  unfold pattern
  rw [bind_eq_error_iff, ← value_eq_error]
  constructor
  · rintro (h | ⟨v, hv, h⟩)
    · exact h
    · obtain ⟨s, rfl⟩ := string_of_value hkind hv
      cases h
  · exact .inl

theorem isOrdered_iff {k : Kind} : k.isOrdered = true ↔ k.isNumeric = true ∨ k = .dateTime := by
  cases k <;> decide

theorem acceptsNull_iff :
    p.acceptsNull = true ↔ p.nullable = true ∨ p.kind = .string ∨ p.kind = .other := by
  rw [Property.acceptsNull, Bool.or_eq_true]
  cases p.kind <;> simp [Kind.isReference]

/-- **When a comparison with a property does not compile, and why.** -/
theorem compileBy_eq_error : c.compileBy reduce p = .error err ↔
    ¬ c.comparator.Suits p ∧ err = c.unsuited p ∨
      c.comparator.Suits p ∧ c.comparator.takesArguments = true ∧
        c.ArgumentFault p c.comparator.takesMany err := by
  rw [compileBy_eq]
  cases c.comparator with
  | eq | neq =>
    rw [relate_eq_error]
    simp [Comparator.Suits, Comparator.takesArguments, Comparator.takesMany]
  | lt | le | gt | ge =>
    show c.order p _ = .error err ↔ _
    rw [order, require_bind_eq_error isOrdered_iff, relate_eq_error]
    simp [Comparator.Suits, Comparator.takesArguments, Comparator.takesMany]
  | isNull | notNull =>
    rw [require_bind_eq_error acceptsNull_iff]
    simp [Comparator.Suits, Comparator.takesArguments, pure, Except.pure]
  | isTrue | isFalse =>
    rw [require_bind_eq_error decide_eq_true_iff]
    simp [Comparator.Suits, Comparator.takesArguments, pure, Except.pure]
  | like =>
    rw [require_bind_eq_error decide_eq_true_iff, bind_return_eq_error]
    simp only [Comparator.Suits, Comparator.takesArguments, Comparator.takesMany, true_and]
    rw [and_congr_right fun hkind => pattern_eq_error hkind]
  | within | without =>
    refine bind_return_eq_error.trans (someValues_eq_error.trans ?_)
    simp [Comparator.Suits, Comparator.takesArguments, Comparator.takesMany]

/-- A comparison fails exactly for one of the reasons. -/
theorem compileIn_eq_error {e : Entity} {n : Naming} :
    c.compileIn reduce e n = .error err ↔ c.Fails e n err := by
  unfold compileIn Entity.resolve
  cases hp : e.property? (n.propertyName c.selector) with
  | none =>
    have hnone : ∀ p, ¬ c.Names e n p := fun p h => Entity.property?_eq_none_iff.1 hp p h.1 h.2
    constructor
    · rintro ⟨⟩
      exact .propertyNotFound hnone
    · rintro (_ | ⟨hp, -⟩ | ⟨hp, -⟩)
      · rfl
      · exact absurd hp (hnone _)
      · exact absurd hp (hnone _)
  | some p =>
    have hnames : ∀ q, c.Names e n q ↔ q = p := by
      intro q
      rw [Names, ← Entity.property?_eq_some_iff, hp, Option.some.injEq, eq_comm]
    dsimp only
    rw [compileBy_eq_error]
    constructor
    · rintro (⟨h, rfl⟩ | ⟨h, htakes, hfault⟩)
      · exact .comparator ((hnames p).2 rfl) h
      · exact .arguments ((hnames p).2 rfl) h htakes hfault
    · rintro (h | ⟨hq, h⟩ | ⟨hq, h, htakes, hfault⟩)
      · exact absurd ((hnames p).2 rfl) (h p)
      · obtain rfl := (hnames _).1 hq
        exact .inl ⟨h, rfl⟩
      · obtain rfl := (hnames _).1 hq
        exact .inr ⟨h, htakes, hfault⟩

end Filter.Comparison

/-! ## Trees -/

namespace Filter

variable {reduce : List Char → Like} {f : Filter} {e : Entity} {n : Naming} {d : Like.Draws}
  {err : CompileError}

theorem exists_compile_eq_error_iff :
    (∃ err, (f.compile e n d).1 = .error err) ↔
      ∃ c ∈ f.comparisons, ∃ err, c.compileIn reduce e n = .error err := by
  constructor
  · rintro ⟨err, h⟩
    obtain ⟨before, c, after, hsplit, -, hc⟩ :=
      Node.firstError_iff_split.1 ((compile_eq_error reduce).1 h)
    exact ⟨c, hsplit ▸ List.mem_append_right before List.mem_cons_self, err, hc⟩
  · rintro ⟨c, hc, err, herr⟩
    cases h : (f.compile e n d).1 with
    | error err => exact ⟨err, rfl⟩
    | ok q =>
      -- then every comparison would compile
      obtain ⟨r, hr⟩ := exists_compileIn reduce h c hc
      rw [herr] at hr
      cases hr

end Filter

/-- **Which filters compile, and with which error the others fail.** Whatever a session has done
before, a filter on a registered entity fails with the error of its first comparison, in the order
of the text, that fails by itself, and it fails only if there is one. A comparison by itself fails
for the first of the reasons in `Comparison.Fails`, and otherwise compiles. -/
theorem compileNode_eq_error_iff (registry : Registry) (settings : Settings) (draws : Like.Draws)
    (steps : List Session.Step) (entity : String) (n : Naming) (e : Entity)
    (he : registry.get? entity = some e) :
    let s := ((Session.Timed.start registry settings draws).run steps).2.session
    let compile (f : Filter) := (s.compileNode entity n f).1
    (∀ f err, compile f = .error err ↔
      ∃ before c after, f.comparisons = before ++ c :: after ∧
        (∀ b ∈ before, ∃ q, compile (.leaf b) = .ok q) ∧ compile (.leaf c) = .error err) ∧
    (∀ f, (∃ err, compile f = .error err) ↔
      ∃ c ∈ f.comparisons, ∃ err, compile (.leaf c) = .error err) ∧
    ∀ c err, compile (.leaf c) = .error err ↔ c.Fails e n err := by
  intro s compile
  have hs := (Session.Agrees.run (t := .start registry settings draws) Session.agrees_start steps).2
  have hcompile : ∀ f : Filter, compile f = (f.compile e n s.draws).1 := by
    intro f
    show (s.compileNode entity n f).1 = (f.compile e n s.draws).1
    rw [(hs.compileNode entity n f).1, Registry.compile, he]
  have hleaf : ∀ c : Comparison, compile (.leaf c) = c.compileIn s.draws.read e n := fun c =>
    (hcompile (.leaf c)).trans (Filter.compile_leaf c)
  simp only [hleaf, hcompile]
  refine ⟨?_, fun f => Filter.exists_compile_eq_error_iff, fun c err =>
    Comparison.compileIn_eq_error⟩
  intro f err
  rw [Filter.compile_eq_error s.draws.read, Node.firstError_iff_split]
  rfl

/-- Two ages, with a text between them that is passed over, before a property that is unknown. -/
theorem compileNode_eq_error_iff_two_ages :
    let user : Entity :=
      ⟨"User", [{ name := "Name", kind := .string }, { name := "Age", kind := .int32 }], by decide⟩
    let registry : Registry := ⟨[user], by decide⟩
    let s := ((Session.Timed.start registry {} (.counted 0)).run []).2.session
    let name : Comparison := ⟨"Name", .isNull, [.bare "x"], ⟨0, 14, 1, 1⟩⟩
    let age : Comparison :=
      ⟨"Age", .eq, [.number "18", .bare "x", .number "21"], ⟨15, 29, 1, 16⟩⟩
    let size : Comparison := ⟨"Size", .eq, [.number "1"], ⟨30, 37, 1, 31⟩⟩
    registry.get? "User" = some user ∧
      (s.compileNode "User" .asIs (.or [.and [.leaf name, .leaf age], .and [.leaf size]])).1 =
        .error (.tooManyArguments "Age" .eq 2 ⟨15, 29, 1, 16⟩) := by
  intro user registry s name age size
  have huser : registry.get? "User" = some user := rfl
  obtain ⟨hfirst, -, halone⟩ :=
    compileNode_eq_error_iff registry {} (.counted 0) [] "User" .asIs user huser
  have hage : age.Fails user .asIs (.tooManyArguments "Age" .eq 2 ⟨15, 29, 1, 16⟩) := by
    let p : Property := { name := "Age", kind := .int32 }
    have hnames : age.Names user .asIs p := ⟨by simp [user, p], by decide⟩
    have hfitting : age.fitting p = [.number "18", .number "21"] := rfl
    refine .arguments hnames trivial rfl (.tooManyArguments ?_ rfl (by decide))
    rw [hfitting]
    exact List.forall_mem_cons.2 ⟨⟨.int32 18, rfl⟩, List.forall_mem_singleton.2 ⟨.int32 21, rfl⟩⟩
  have hname : (s.compileNode "User" .asIs (.leaf name)).1 = .ok (.isNull "Name") := by cbv
  refine ⟨huser, (hfirst _ _).2 ⟨[name], age, [size], rfl, ?_, (halone _ _).2 hage⟩⟩
  exact List.forall_mem_singleton.2 ⟨_, hname⟩

end RecordFilter

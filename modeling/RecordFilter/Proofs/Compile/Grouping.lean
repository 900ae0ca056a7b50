import RecordFilter.Proofs.Filter.Grouping
import RecordFilter.Proofs.Session.Memory

/-!
# Compiling filters in parentheses

A filter that was moved to another place compiles to the same predicate, and where it does not
compile, its error is moved with it (`compileWith_moved`). Two filters joined in parentheses
therefore compile to their predicates joined, the second with the markers that the first has left,
and the first of them that does not compile is the error of the whole (`compile_groups`).
-/

namespace RecordFilter

open RecordFilter.Filter RecordFilter.Like

/-! ## Errors at other places -/

/-- The error in a text that goes on, behind the text that is now before it. -/
def CompileError.moved (head : List Char) : CompileError → CompileError
  | text e => text e
  | unknownEntity name => unknownEntity name
  | propertyNotFound entity selector span => propertyNotFound entity selector (span.moved head)
  | notEnoughArguments selector comparator span =>
    notEnoughArguments selector comparator (span.moved head)
  | tooManyArguments selector comparator count span =>
    tooManyArguments selector comparator count (span.moved head)
  | comparatorNotForKind selector comparator kind span =>
    comparatorNotForKind selector comparator kind (span.moved head)
  | unknownComparator token span => unknownComparator token (span.moved head)
  | invalidValue selector comparator literal kind span =>
    invalidValue selector comparator literal kind (span.moved head)

/-- An outcome whose error is moved. -/
def atMoved {α : Type} (head : List Char) (x : Except CompileError α) : Except CompileError α :=
  x.mapError (CompileError.moved head)

section Moved

variable {α β : Type} {head : List Char}

theorem atMoved_bind (x : Except CompileError α) (f : α → Except CompileError β) :
    atMoved head (x >>= f) = atMoved head x >>= fun a => atMoved head (f a) := by
  cases x <;> rfl

variable {m : Type → Type} [Monad m]

/-- A computation whose error is moved. -/
def runMoved (head : List Char) (x : ExceptT CompileError m α) : ExceptT CompileError m α :=
  ExceptT.adapt (CompileError.moved head) x

theorem exec_runMoved {σ : Type} (x : ExceptT CompileError (StateM σ) α) (s : σ) :
    exec (runMoved head x) s = (atMoved head (exec x s).1, (exec x s).2) := rfl

variable [LawfulMonad m]

theorem runMoved_bind (x : ExceptT CompileError m α) (f : α → ExceptT CompileError m β) :
    runMoved head (x >>= f) = runMoved head x >>= fun a => runMoved head (f a) := by
  ext1
  simp only [runMoved, ExceptT.run_bind, ExceptT.run_adapt, map_bind, bind_map_left]
  refine bind_congr fun a => ?_
  cases a with
  | ok a => simp only [Except.mapError]
  | error e => simp only [Except.mapError, map_pure]

theorem runMoved_pure (a : α) : runMoved (m := m) head (pure a) = pure a := by
  ext1
  simp only [runMoved, ExceptT.run_adapt, ExceptT.run_pure, map_pure, Except.mapError]

theorem runMoved_throw (e : CompileError) :
    runMoved (m := m) (α := α) head (throw e) = throw (e.moved head) := by
  ext1
  simp only [runMoved, ExceptT.run_adapt, ExceptT.run_throw, map_pure, Except.mapError]

theorem runMoved_liftExcept (x : Except CompileError α) :
    runMoved (m := m) head (liftM x) = liftM (atMoved head x) := by
  cases x with
  | ok a => exact runMoved_pure a
  | error e => exact runMoved_throw e

theorem runMoved_lift (x : m α) :
    runMoved head (liftM x : ExceptT CompileError m α) = liftM x := by
  ext1
  simp [runMoved, Except.mapError]

end Moved

variable {head : List Char}

/-! ## Comparisons -/

namespace Filter.Comparison

variable (c : Comparison) (p : Property)

theorem selector_moved : (c.moved head).selector = c.selector := rfl

theorem comparator_moved : (c.moved head).comparator = c.comparator := rfl

theorem arguments_moved : (c.moved head).arguments = c.arguments := rfl

theorem values_moved : (c.moved head).values p = atMoved head (c.values p) := by
  unfold values
  rw [arguments_moved]
  cases coerce p.kind c.arguments with
  | ok vs => cases vs <;> rfl
  | error e => rfl

theorem value_moved : (c.moved head).value p = atMoved head (c.value p) := by
  rw [value, value, atMoved_bind, values_moved]
  congr 1
  funext vs
  match vs with
  | [] | [_] | _ :: _ :: _ => rfl

theorem someValues_moved : (c.moved head).someValues p = atMoved head (c.someValues p) := by
  rw [someValues, someValues, atMoved_bind, values_moved]
  congr 1
  funext vs
  cases vs <;> rfl

theorem require_moved (allowed : Bool) :
    (c.moved head).require p allowed = atMoved head (c.require p allowed) := by
  cases allowed <;> rfl

theorem relate_moved (r : Relation) : (c.moved head).relate p r = atMoved head (c.relate p r) := by
  rw [relate, relate, atMoved_bind, value_moved]
  rfl

theorem order_moved (r : Relation) : (c.moved head).order p r = atMoved head (c.order p r) := by
  rw [order, order, atMoved_bind, require_moved]
  congr 1
  funext u
  exact relate_moved c p r

theorem pattern_moved : (c.moved head).pattern p = atMoved head (c.pattern p) := by
  rw [pattern, pattern, atMoved_bind, value_moved]
  congr 1
  funext v
  cases v <;> rfl

variable {m : Type → Type} [Monad m] [LawfulMonad m] (reduce : List Char → m Like)
  (resolve : String → m (Except PropertyNotFound Property))

theorem compileFor_moved :
    (c.moved head).compileFor reduce p = runMoved head (c.compileFor reduce p) := by
  unfold compileFor
  rw [comparator_moved]
  cases c.comparator with
  | eq | neq => simp only [runMoved_liftExcept, relate_moved]
  | lt | le | gt | ge => simp only [runMoved_liftExcept, order_moved]
  | isNull | notNull | isTrue | isFalse =>
    simp only [runMoved_bind, runMoved_liftExcept, runMoved_pure, require_moved]
  | like =>
    simp only [runMoved_bind, runMoved_liftExcept, runMoved_lift, runMoved_pure, require_moved,
      pattern_moved]
  | within | without =>
    simp only [runMoved_bind, runMoved_liftExcept, runMoved_pure, someValues_moved]

/-- **A comparison that was moved compiles as before**, but for the place in its error. -/
theorem compile_moved :
    (c.moved head).compile resolve reduce = runMoved head (c.compile resolve reduce) := by
  unfold compile
  rw [runMoved_bind, runMoved_lift, selector_moved]
  congr 1
  funext x
  cases x with
  | ok p => exact compileFor_moved c p reduce
  | error missing =>
    dsimp only
    rw [runMoved_throw]
    rfl

end Filter.Comparison

/-! ## Trees -/

section Trees

variable {m : Type → Type} [Monad m] [LawfulMonad m]

namespace Filter.Node

variable {α β : Type} {g : α → α} {h : α → ExceptT CompileError m β}

mutual

/-- Leaves that were moved have moved errors, and so does their tree. -/
theorem traverse_map (hg : ∀ a, h (g a) = runMoved head (h a)) : ∀ t : Node α,
    (t.map g).traverse h = runMoved head (t.traverse h)
  | .or ts => by
    rw [map, traverse, traverse, runMoved_bind, traverseAll_map hg ts]
    simp only [runMoved_pure]
  | .and ts => by
    rw [map, traverse, traverse, runMoved_bind, traverseAll_map hg ts]
    simp only [runMoved_pure]
  | .leaf a => by
    rw [map, traverse, traverse, runMoved_bind, hg]
    simp only [runMoved_pure]

theorem traverseAll_map (hg : ∀ a, h (g a) = runMoved head (h a)) : ∀ ts : List (Node α),
    traverseAll h (ts.map (map g)) = runMoved head (traverseAll h ts)
  | [] => by rw [List.map_nil, traverseAll, runMoved_pure]
  | t :: ts => by
    rw [List.map_cons, traverseAll, traverseAll, runMoved_bind, traverse_map hg t]
    simp only [runMoved_bind, traverseAll_map hg ts, runMoved_pure]

end

end Filter.Node

namespace Filter

variable (resolve : String → m (Except PropertyNotFound Property)) (reduce : List Char → m Like)
  (f g : Filter)

/-- **A filter that was moved compiles as before**, but for the place in its error. -/
theorem compileWith_moved : (f.moved head).compileWith resolve reduce =
    runMoved head (f.compileWith resolve reduce) := by
  unfold compileWith
  rw [runMoved_bind, moved,
    Node.traverse_map fun c => Comparison.compile_moved c reduce resolve]
  simp only [runMoved_pure]

/-- The predicates on both sides of a combinator as one. -/
def Combinator.join : Combinator → Predicate → Predicate → Predicate
  | .and => .and
  | .or => .or

/-- Two filters joined by a combinator compile one after the other. -/
theorem compileWith_pair (c : Combinator) : compileWith resolve reduce (c.pair f g) = (do
    let q ← f.compileWith resolve reduce
    let r ← g.compileWith resolve reduce
    return c.join q r) := by
  unfold compileWith
  cases c <;>
    simp only [Combinator.pair, Node.traverse, Node.traverseAll, bind_assoc, pure_bind] <;>
    rfl

end Filter

end Trees

/-! ## Texts -/

namespace Registry

variable {registry : Registry} {entity text text' : String} {n : Naming} {f g : Filter}

theorem compile_pair {head' : List Char} (c : Combinator) :
    ExceptT.mk (registry.compile entity n (c.pair (f.moved head) (g.moved head'))) = (do
      let q ← runMoved head (ExceptT.mk (registry.compile entity n f))
      let r ← runMoved head' (ExceptT.mk (registry.compile entity n g))
      return c.join q r) := by
  unfold Registry.compile
  cases registry.get? entity with
  | none => rfl
  | some e =>
    refine (Filter.compileWith_pair _ _ _ _ c).trans ?_
    rw [Filter.compileWith_moved, Filter.compileWith_moved]
    rfl

section Groups

variable (registry entity n) (hf : Filter.read text = .ok f)
  (hblank : ∃ c ∈ text.toList, isSpace c = false) (hg : Filter.read text' = .ok g)
  (hblank' : ∃ c ∈ text'.toList, isSpace c = false) (c : Combinator)
include hf hblank hg hblank'

/-- Texts in parentheses compile one after the other, with errors at their new places. -/
theorem compileText_groups : ExceptT.mk (registry.compileText entity n
    ("(" ++ text ++ c.betweenGroups ++ text' ++ ")")) = (do
      let q ← runMoved "(".toList (ExceptT.mk (registry.compileText entity n text))
      let r ← runMoved ("(" ++ text ++ c.betweenGroups).toList
        (ExceptT.mk (registry.compileText entity n text'))
      return c.join q r) := by
  have hgroups := read_groups hf hblank hg hblank' c
  unfold compileText
  rw [hf, hg, hgroups]
  exact compile_pair c

/-- The second text is compiled with the markers that the first has left. -/
theorem compileText_groups_run (d : Draws) :
    registry.compileText entity n ("(" ++ text ++ c.betweenGroups ++ text' ++ ")") d =
      match registry.compileText entity n text d with
      | (.ok q, d) => match registry.compileText entity n text' d with
        | (.ok r, d) => (.ok (c.join q r), d)
        | (.error err, d) => (.error (err.moved ("(" ++ text ++ c.betweenGroups).toList), d)
      | (.error err, d) => (.error (err.moved "(".toList), d) := by
  have hgroups := compileText_groups registry entity n hf hblank hg hblank' c
  refine (congrArg (exec · d) hgroups).trans ?_
  rw [exec_bind, exec_runMoved, exec_mk]
  rcases registry.compileText entity n text d with ⟨err | q, d⟩
  · rfl
  · simp only [atMoved, Except.mapError]
    rw [exec_bind, exec_runMoved, exec_mk]
    rcases registry.compileText entity n text' d with ⟨err | r, d⟩ <;> rfl

/-- Compiled one after the other, the texts have the predicates of the whole. -/
theorem compileText_groups_ok {d d' : Draws} {q r : Predicate}
    (hq : registry.compileText entity n text d = (.ok q, d'))
    (hr : (registry.compileText entity n text' d').1 = .ok r) :
    (registry.compileText entity n ("(" ++ text ++ c.betweenGroups ++ text' ++ ")") d).1 =
      .ok (c.join q r) := by
  rw [compileText_groups_run registry entity n hf hblank hg hblank' c d, hq]
  dsimp only
  rw [← Prod.mk.eta (p := registry.compileText entity n text' d'), hr]

end Groups

end Registry

/-- Texts in parentheses in a session, which may know one of the texts from earlier: errors are the
same at all times, and so are predicates if no marker shows. -/
theorem Session.Agrees.compile_both {registry : Registry} {settings : Settings} {draws : Draws}
    {session : Session} (hs : session.Agrees registry settings draws) (now : Nat) (entity : String)
    (n : Naming) {f g : String} {s t : Filter} (hf : Filter.read f = .ok s)
    (hfblank : ∃ c ∈ f.toList, isSpace c = false) (hg : Filter.read g = .ok t)
    (hgblank : ∃ c ∈ g.toList, isSpace c = false) (c : Combinator) :
    let compile (text : String) := (session.compile now entity n text).1
    let whole := "(" ++ f ++ c.betweenGroups ++ g ++ ")"
    (∀ q r, compile f = .ok q → compile g = .ok r →
      ∃ q' r', compile whole = .ok (c.join q' r') ∧
        (Hidden draws s → q' = q) ∧ (Hidden draws t → r' = r)) ∧
    (∀ err, compile f = .error err → compile whole = .error (err.moved "(".toList)) ∧
    ∀ q err, compile f = .ok q → compile g = .error err →
      compile whole = .error (err.moved ("(" ++ f ++ c.betweenGroups).toList) := by
  intro compile whole
  obtain ⟨df, hleadsf, -, hanswerf⟩ := (hs.compile now entity n f).1
  obtain ⟨dg, hleadsg, -, hanswerg⟩ := (hs.compile now entity n g).1
  obtain ⟨d, hleads, -, hanswer⟩ := (hs.compile now entity n whole).1
  have hrun := registry.compileText_groups_run entity n hf hfblank hg hgblank c d
  have hhidden {text : String} {u v : Filter} {d' d'' : Draws} (hread : Filter.read text = .ok u)
      (hu : Hidden draws u) (hd' : draws.Leads d') (hd'' : draws.Leads d'')
      (hv : Filter.read text = .ok v) : Hidden d' v ∧ Hidden d'' v := by
    obtain rfl := Except.ok.inj (hread.symm.trans hv)
    exact ⟨hu.of_leads hd', hu.of_leads hd''⟩
  refine ⟨fun q r hq hr => ?_, fun err herr => ?_, fun q err hq herr => ?_⟩
  · obtain ⟨q', d', hfirst, hd', hsame⟩ := Registry.exists_compileText (hanswerf.symm.trans hq) d
    obtain ⟨r', d'', hsecond, -, hsame'⟩ := Registry.exists_compileText (hanswerg.symm.trans hr) d'
    rw [hfirst] at hrun
    dsimp only at hrun
    rw [hsecond] at hrun
    refine ⟨q', r', hanswer.trans (congrArg Prod.fst hrun), fun hs => hsame fun u hu => ?_,
      fun ht => hsame' fun v hv => ?_⟩
    · exact hhidden hf hs hleadsf hleads hu
    · exact hhidden hg ht hleadsg (hleads.trans hd') hv
  · have hfirst : (registry.compileText entity n f d).1 = .error err :=
      Registry.compileText_eq_error_congr.1 (hanswerf.symm.trans herr)
    rw [← Prod.mk.eta (p := registry.compileText entity n f d), hfirst] at hrun
    exact hanswer.trans (congrArg Prod.fst hrun)
  · obtain ⟨q', d', hfirst, -⟩ := Registry.exists_compileText (hanswerf.symm.trans hq) d
    have hsecond : (registry.compileText entity n g d').1 = .error err :=
      Registry.compileText_eq_error_congr.1 (hanswerg.symm.trans herr)
    rw [hfirst] at hrun
    dsimp only at hrun
    rw [← Prod.mk.eta (p := registry.compileText entity n g d'), hsecond] at hrun
    exact hanswer.trans (congrArg Prod.fst hrun)

/-- **Filters compose by putting their texts in parentheses.** Two texts that are filters and not
blank can be joined by `;` or `,`, each in parentheses. The whole has the trees of both, with their
places moved and nothing else changed.

* If the second text is compiled with the markers that the first has left, the whole compiles to
  both predicates joined, with the markers of the first.
* Whatever a session has done before, the whole compiles if both texts do. It evaluates to the
  conjunction or the disjunction of what they evaluate to, if no marker shows in their patterns.
* If the first text does not compile, the error of the whole is that of the first, at its new place,
  and else that of the second. -/
theorem compile_groups (registry : Registry) (settings : Settings) (draws : Draws)
    (steps : List Session.Step) (now : Nat) (entity : String) (n : Naming) (f g : String)
    (s t : Filter) (hf : read f = .ok s) (hfblank : ∃ c ∈ f.toList, isSpace c = false)
    (hg : read g = .ok t) (hgblank : ∃ c ∈ g.toList, isSpace c = false) :
    let session := ((Session.Timed.start registry settings draws).run steps).2.session
    let compile (text : String) := (session.compile now entity n text).1
    let both := "(" ++ f ++ ");(" ++ g ++ ")"
    let either := "(" ++ f ++ "),(" ++ g ++ ")"
    (read both = .ok (.or [.and [s.moved "(".toList, t.moved ("(" ++ f ++ ");(").toList]]) ∧
      read either =
        .ok (.or [.and [s.moved "(".toList], .and [t.moved ("(" ++ f ++ "),(").toList]])) ∧
    (∀ d d' q r, registry.compileText entity n f d = (.ok q, d') →
      (registry.compileText entity n g d').1 = .ok r →
      (registry.compileText entity n both d).1 = .ok (.and q r) ∧
        (registry.compileText entity n either d).1 = .ok (.or q r)) ∧
    (∀ q r, compile f = .ok q → compile g = .ok r →
      ∃ p p', compile both = .ok p ∧ compile either = .ok p' ∧
        (Hidden draws s → Hidden draws t → ∀ get,
          p.evaluate get = (q.evaluate get && r.evaluate get) ∧
            p'.evaluate get = (q.evaluate get || r.evaluate get))) ∧
    (∀ err, compile f = .error err →
      compile both = .error (err.moved "(".toList) ∧
        compile either = .error (err.moved "(".toList)) ∧
    ∀ q err, compile f = .ok q → compile g = .error err →
      compile both = .error (err.moved ("(" ++ f ++ ");(").toList) ∧
        compile either = .error (err.moved ("(" ++ f ++ "),(").toList) := by
  intro session compile both either
  have hs := (Session.Agrees.run (t := .start registry settings draws) Session.agrees_start steps).2
  obtain ⟨hboth, hboth₁, hboth₂⟩ := hs.compile_both now entity n hf hfblank hg hgblank .and
  obtain ⟨heither, heither₁, heither₂⟩ := hs.compile_both now entity n hf hfblank hg hgblank .or
  refine ⟨⟨read_groups hf hfblank hg hgblank .and, read_groups hf hfblank hg hgblank .or⟩,
    fun d d' q r hq hr => ⟨?_, ?_⟩, fun q r hq hr => ?_,
    fun err herr => ⟨hboth₁ err herr, heither₁ err herr⟩,
    fun q err hq herr => ⟨hboth₂ q err hq herr, heither₂ q err hq herr⟩⟩
  · exact registry.compileText_groups_ok entity n hf hfblank hg hgblank .and hq hr
  · exact registry.compileText_groups_ok entity n hf hfblank hg hgblank .or hq hr
  · obtain ⟨q₁, r₁, hp, hq₁, hr₁⟩ := hboth q r hq hr
    obtain ⟨q₂, r₂, hp', hq₂, hr₂⟩ := heither q r hq hr
    refine ⟨_, _, hp, hp', fun hhidden hhidden' get => ⟨?_, ?_⟩⟩
    · rw [hq₁ hhidden, hr₁ hhidden']
      rfl
    · rw [hq₂ hhidden, hr₂ hhidden']
      rfl

/-- The letters of a combinator before the end of a text, and an age that is no number. -/
theorem compile_groups_words :
    let user : Entity :=
      ⟨"User", [{ name := "Name", kind := .string }, { name := "Age", kind := .int32 }], by decide⟩
    let registry : Registry := ⟨[user], by decide⟩
    let s := ((Session.Timed.start registry {} (.counted 0)).run []).2.session
    Filter.read "Name==or" = .ok (.or [.and [.leaf ⟨"Name", .eq, [.bare "or"], ⟨0, 8, 1, 1⟩⟩]]) ∧
      (∃ c ∈ "Name==or".toList, isSpace c = false) ∧
      Filter.read "Age<x" = .ok (.or [.and [.leaf ⟨"Age", .lt, [.bare "x"], ⟨0, 5, 1, 1⟩⟩]]) ∧
      (∃ c ∈ "Age<x".toList, isSpace c = false) ∧
      Filter.read "(Name==or);(Age<x)" = .ok (.or [.and [
        .or [.and [.leaf ⟨"Name", .eq, [.bare "or"], ⟨1, 9, 1, 2⟩⟩]],
        .or [.and [.leaf ⟨"Age", .lt, [.bare "x"], ⟨12, 17, 1, 13⟩⟩]]]]) ∧
      (s.compile 0 "User" .asIs "(Name==or);(Age<x)").1 =
        .error (.notEnoughArguments "Age" .lt ⟨12, 17, 1, 13⟩) := by
  intro user registry s
  have hname : Filter.read "Name==or" =
      .ok (.or [.and [.leaf ⟨"Name", .eq, [.bare "or"], ⟨0, 8, 1, 1⟩⟩]]) := by cbv
  have hage : Filter.read "Age<x" =
      .ok (.or [.and [.leaf ⟨"Age", .lt, [.bare "x"], ⟨0, 5, 1, 1⟩⟩]]) := by cbv
  have hnameBlank : ∃ c ∈ "Name==or".toList, isSpace c = false := ⟨'N', by simp, rfl⟩
  have hageBlank : ∃ c ∈ "Age<x".toList, isSpace c = false := ⟨'A', by simp, rfl⟩
  obtain ⟨⟨hboth, -⟩, -, -, -, hsecond⟩ := compile_groups registry {} (.counted 0) [] 0 "User" .asIs
    "Name==or" "Age<x" _ _ hname hnameBlank hage hageBlank
  refine ⟨hname, hnameBlank, hage, hageBlank, ?_, ?_⟩
  · simp only [moved, Node.map, List.map_cons, List.map_nil, Comparison.moved] at hboth
    exact hboth
  · have hq : (s.compile 0 "User" .asIs "Name==or").1 =
        .ok (.compare "Name" .eq (.string "or")) := by cbv
    have herr : (s.compile 0 "User" .asIs "Age<x").1 =
        .error (.notEnoughArguments "Age" .lt ⟨0, 5, 1, 1⟩) := by cbv
    exact (hsecond _ _ hq herr).1

end RecordFilter

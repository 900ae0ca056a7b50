import RecordFilter.Proofs.Cache.Entries
import RecordFilter.Proofs.Compile.Drawn
import RecordFilter.Session

/-!
# The memory of a session does not show

A session remembers resolved selectors and compiled predicates. `Session.Agrees` says that
everything it remembers is what would be computed anew; every step keeps that, so after any row of
steps the answers are those of a session without a past (`run_answers_eq_anew`).

A predicate with a pattern depends on the markers that were drawn when it was compiled, and a cached
one was compiled earlier. So an answer is that of a new session with the markers of some time. Where
no marker shows, markers of any other source would do.

## Two memories

* The resolver is filled in the middle of compiling a filter. `Simulation` reduces that to one
  selector (`Resolver.Agrees.resolve`).
* The cache is asked before and filled after compiling a text. What it holds under a key is related
  to the key alone, so when entries are dropped does not matter (`PredicateCache.All`).
-/

namespace RecordFilter

open RecordFilter.Filter RecordFilter.Like

variable {registry : Registry} {settings : Settings} {draws : Draws} {entity text : String}
  {n : Naming}

/-! ## Resolved selectors -/

theorem Registry.name_of_get? {e : Entity} (h : registry.get? entity = some e) :
    e.name = entity := by
  simpa using List.find?_some h

/-- Every property remembered is the one that its entity declares under that name. -/
def Resolver.Agrees (registry : Registry) (r : Resolver) : Prop :=
  ∀ entity name p, r.found.get? (entity, name) = some p →
    ∃ e, registry.get? entity = some e ∧ e.property? name = some p

theorem Resolver.agrees_empty : Resolver.empty.Agrees registry := by
  intro entity name p h
  simp [Resolver.empty] at h

theorem Resolver.Agrees.resolve {r : Resolver} {e : Entity} (h : r.Agrees registry)
    (he : registry.get? e.name = some e) (selector : String) :
    (r.resolve e n selector).1 = e.resolve n selector ∧
      (r.resolve e n selector).2.Agrees registry := by
  unfold Resolver.resolve
  cases hf : r.found.get? (e.name, n.propertyName selector) with
  | some p =>
    obtain ⟨e', he', hp⟩ := h _ _ p hf
    obtain rfl : e = e' := by simpa [he] using he'
    exact ⟨by simp [hf, Entity.resolve, hp], by simpa [hf] using h⟩
  | none =>
    cases hp : e.property? (n.propertyName selector) with
    | none => exact ⟨by simp [hf, Entity.resolve, hp], by simpa [hf, Entity.resolve, hp] using h⟩
    | some p =>
      refine ⟨by simp [hf, Entity.resolve, hp], ?_⟩
      intro entity name q hq
      simp only [hf, Entity.resolve, hp] at hq
      -- either the property just found, or one found before
      by_cases hk : (entity, name) = (e.name, n.propertyName selector)
      · rw [hk, Table.get?_insert_self] at hq
        obtain ⟨rfl, rfl⟩ := Prod.mk.inj hk
        exact ⟨e, he, hp.trans hq⟩
      · rw [Table.get?_insert_of_ne _ _ hk] at hq
        exact h entity name q hq

/-! ## Compiling with a resolver -/

theorem Session.actsLike_resolveStep {e : Entity} (he : registry.get? e.name = some e)
    (selector : String) : ActsLike (Resolver.Agrees registry) (Session.resolveStep e n selector)
      (return e.resolve n selector : StateM Draws _) := by
  intro r d hr
  obtain ⟨hanswer, hagrees⟩ := hr.resolve (n := n) he selector
  exact ⟨(r.resolve e n selector).2, by rw [← hanswer]; rfl, hagrees⟩

theorem Session.actsLike_reduceStep (pattern : List Char) :
    ActsLike (Resolver.Agrees registry) (Session.reduceStep pattern) (Like.ofPattern pattern) :=
  fun r _ hr => ⟨r, rfl, hr⟩

theorem Session.actsLike_compileStep (entity : String) (n : Naming) (f : Filter) :
    ActsLike (Resolver.Agrees registry) (Session.compileStep registry entity n f)
      (registry.compile entity n f) := by
  intro r d hr
  unfold Session.compileStep Registry.compile
  cases he : registry.get? entity with
  | none => exact ⟨r, rfl, hr⟩
  | some e =>
    have he' : registry.get? e.name = some e := by rw [Registry.name_of_get? he, he]
    exact simulates_compileWith (Session.actsLike_resolveStep he') Session.actsLike_reduceStep f
      r d hr

theorem Session.actsLike_compileTextStep (entity : String) (n : Naming) (text : String) :
    ActsLike (Resolver.Agrees registry) (Session.compileTextStep registry entity n text)
      (registry.compileText entity n text) := by
  intro r d hr
  unfold Session.compileTextStep Registry.compileText
  cases Filter.read text with
  | error e => exact ⟨r, rfl, hr⟩
  | ok f => exact Session.actsLike_compileStep entity n f r d hr

theorem Registry.leads_compile (registry : Registry) (entity : String) (n : Naming) (f : Filter)
    (d : Draws) : d.Leads (registry.compile entity n f d).2 := by
  unfold Registry.compile
  cases registry.get? entity with
  | none => exact .refl d
  | some e =>
    obtain ⟨-, -, hlater, -⟩ := exists_compile f e n d
    exact hlater

theorem Registry.leads_compileText (registry : Registry) (entity : String) (n : Naming)
    (text : String) (d : Draws) : d.Leads (registry.compileText entity n text d).2 := by
  unfold Registry.compileText
  cases Filter.read text with
  | error e => exact .refl d
  | ok f => exact registry.leads_compile entity n f d

/-! ## Cached predicates -/

/-- A predicate is what its key compiles to with markers that were still to come at some time. -/
def Registry.Compiles (registry : Registry) (draws : Draws) (k : PredicateKey) (p : Predicate) :
    Prop :=
  ∃ d : Draws, draws.Leads d ∧ (registry.compileText k.entity k.naming k.filter d).1 = .ok p

/-- A session of a registry and settings that began with given draws and remembers what would be
computed anew. -/
structure Session.Agrees (registry : Registry) (settings : Settings) (draws : Draws)
    (s : Session) : Prop where
  registry_eq : s.registry = registry
  settings_eq : s.settings = settings
  leads : draws.Leads s.draws
  resolved : s.resolver.Agrees registry
  cached : ∀ c, s.cache = some c → c.All (registry.Compiles draws)

theorem Session.agrees_start :
    (Session.start registry settings draws).Agrees registry settings draws where
  registry_eq := rfl
  settings_eq := rfl
  leads := .refl draws
  resolved := Resolver.agrees_empty
  cached := by
    intro c hc
    simp only [Session.start] at hc
    split at hc
    · obtain rfl := Option.some.inj hc
      exact PredicateCache.all_ofSettings _
    · simp at hc

/-! ## Single steps -/

namespace Session

variable {s : Session} {now : Nat}

/-- The predicate cached under a key, with its last use. -/
def cached? (s : Session) (k : PredicateKey) : Option CacheEntry := s.cache.bind (·.entries.get? k)

/-- Compiling a tree answers as without a memory and leaves the cache alone. -/
theorem Agrees.compileNode (h : s.Agrees registry settings draws) (entity : String) (n : Naming)
    (f : Filter) :
    (s.compileNode entity n f).1 = (registry.compile entity n f s.draws).1 ∧
      (s.compileNode entity n f).2.Agrees registry settings draws := by
  obtain ⟨rfl, rfl, hleads, hres, hcache⟩ := h
  obtain ⟨r, hrun, hr⟩ := actsLike_compileStep entity n f s.resolver s.draws hres
  have hstep : s.compileNode entity n f = ((s.registry.compile entity n f s.draws).1,
      { s with resolver := r, draws := (s.registry.compile entity n f s.draws).2 }) := by
    unfold Session.compileNode
    rw [StateT.run, hrun]
  rw [hstep]
  exact ⟨rfl, rfl, rfl, hleads.trans (Registry.leads_compile _ _ _ _ _), hr, hcache⟩

theorem compile_uncached (hc : s.cache = none) :
    s.compile now entity n text =
      match compileTextStep s.registry entity n text (s.resolver, s.draws) with
      | (answer, resolver, draws) => (answer, { s with resolver, draws }) := by
  unfold Session.compile
  rw [hc]
  rfl

/-- Compiling a text with a cache: a hit touches neither the resolver nor the draws, and only what
compiles is put into the cache. -/
theorem compile_cached {c : PredicateCache} (hc : s.cache = some c) :
    s.compile now entity n text = match c.get now ⟨entity, text, n⟩ with
      | (some p, c) => (.ok p, { s with cache := some c })
      | (none, c) => match compileTextStep s.registry entity n text (s.resolver, s.draws) with
        | (.ok p, resolver, draws) =>
          (.ok (c.insert now ⟨entity, text, n⟩ p).1,
            { s with resolver, draws, cache := some (c.insert now ⟨entity, text, n⟩ p).2 })
        | (.error e, resolver, draws) =>
          (.error e, { s with resolver, draws, cache := some c }) := by
  unfold Session.compile
  rw [hc]
  simp only [StateT.run, PredicateCache.getOrInsert_run]
  rcases c.get now ⟨entity, text, n⟩ with ⟨_ | p, c'⟩
  · rcases compileTextStep s.registry entity n text (s.resolver, s.draws) with ⟨_ | p, r, d⟩ <;>
      rfl
  · rfl

/-- **Compiling a text answers as without a memory**, with the markers of some time; with those of
now, if nothing is cached for the text. -/
theorem Agrees.compile (h : s.Agrees registry settings draws) (now : Nat) (entity : String)
    (n : Naming) (text : String) :
    (∃ d : Draws, draws.Leads d ∧ (s.cached? ⟨entity, text, n⟩ = none → d = s.draws) ∧
      (s.compile now entity n text).1 = (registry.compileText entity n text d).1) ∧
      (s.compile now entity n text).2.Agrees registry settings draws := by
  obtain ⟨rfl, rfl, hleads, hres, hcache⟩ := h
  obtain ⟨r, hrun, hr⟩ := actsLike_compileTextStep entity n text s.resolver s.draws hres
  have hlater := hleads.trans (Registry.leads_compileText s.registry entity n text s.draws)
  cases hc : s.cache with
  | none =>
    rw [compile_uncached hc, hrun]
    exact ⟨⟨s.draws, hleads, fun _ => rfl, rfl⟩, rfl, rfl, hlater, hr, hcache⟩
  | some c =>
    obtain ⟨hall, hget⟩ := (hcache c hc).get now ⟨entity, text, n⟩
    have hcached : s.cached? ⟨entity, text, n⟩ = c.entries.get? ⟨entity, text, n⟩ := by
      rw [cached?, hc, Option.bind_some]
    rw [compile_cached hc, hcached]
    rcases hg : c.get now ⟨entity, text, n⟩ with ⟨_ | p, c'⟩
    · rw [hg] at hall
      have hmissing := PredicateCache.get?_of_get_eq_none (congrArg Prod.fst hg)
      rw [hg] at hmissing
      rw [hrun]
      rcases hanswer : s.registry.compileText entity n text s.draws with ⟨_ | p, d⟩
      · rw [hanswer] at hlater
        refine ⟨⟨s.draws, hleads, fun _ => rfl, by rw [hanswer]⟩, rfl, rfl, hlater, hr, ?_⟩
        rintro c'' ⟨⟩
        exact hall
      · rw [hanswer] at hlater
        obtain ⟨hins, -⟩ := hall.insert now ⟨entity, text, n⟩
          (p := p) ⟨s.draws, hleads, congrArg Prod.fst hanswer⟩
        refine ⟨⟨s.draws, hleads, fun _ => rfl, ?_⟩, rfl, rfl, hlater, hr, ?_⟩
        · rw [hanswer]
          have hinsert : c'.insert now ⟨entity, text, n⟩ p = _ :=
            PredicateCache.insert_of_get?_eq_none hmissing
          exact congrArg (fun r => Except.ok r.1) hinsert
        · rintro c'' ⟨⟩
          exact hins
    · rw [hg] at hall hget
      obtain ⟨d, hd, hp⟩ := hget p rfl
      refine ⟨⟨d, hd, fun hnone => ?_, hp.symm⟩, rfl, rfl, hleads, hres, ?_⟩
      · have hmiss := PredicateCache.get_of_get?_eq_none now hnone
        rw [hg] at hmiss
        cases hmiss
      · rintro c'' ⟨⟩
        exact hall

/-- A text that does not compile adds no entry. -/
theorem cached?_compile_error {e : CompileError} (h : (s.compile now entity n text).1 = .error e)
    {k : PredicateKey} (hk : s.cached? k = none) :
    (s.compile now entity n text).2.cached? k = none := by
  cases hc : s.cache with
  | none =>
    rw [compile_uncached hc]
    exact hk
  | some c =>
    rw [compile_cached hc] at h ⊢
    -- that there is no entry under the key is kept like any other property of the entries
    have hall : c.All fun k' _ => k' ≠ k := by
      rintro k' e' he rfl
      simp [cached?, hc, he] at hk
    have hafter := (hall.get now ⟨entity, text, n⟩).1
    rcases hg : c.get now ⟨entity, text, n⟩ with ⟨_ | p, c'⟩
    · rw [hg] at hafter h
      rcases hrun : compileTextStep s.registry entity n text (s.resolver, s.draws) with
        ⟨_ | p, r, d⟩
      · simp only [cached?, Option.bind_some]
        exact Option.eq_none_iff_forall_ne_some.2 fun e' he => hafter k e' he rfl
      · simp [hrun] at h
    · simp [hg] at h

theorem Agrees.sweep (h : s.Agrees registry settings draws) (now : Nat) :
    (s.sweep now).2.Agrees registry settings draws := by
  obtain ⟨rfl, rfl, hleads, hres, hcache⟩ := h
  unfold Session.sweep
  cases hc : s.cache with
  | none => exact ⟨rfl, rfl, hleads, hres, hcache⟩
  | some c =>
    refine ⟨rfl, rfl, hleads, hres, ?_⟩
    rintro c' ⟨⟩
    exact (hcache c hc).sweep now

theorem Agrees.clear (h : s.Agrees registry settings draws) :
    s.clear.Agrees registry settings draws := by
  obtain ⟨rfl, rfl, hleads, hres, hcache⟩ := h
  refine ⟨rfl, rfl, hleads, hres, ?_⟩
  intro c hc
  obtain ⟨c, -, rfl⟩ := Option.map_eq_some_iff.1 hc
  exact PredicateCache.all_clear c

/-! ## Answers without a memory -/

/-- What a text compiles to without a memory: the error of the text, or that there is no such
entity, or what a new session makes of the tree. -/
def compileAnew (registry : Registry) (settings : Settings) (draws : Draws) (entity : String)
    (n : Naming) (text : String) : Except CompileError Predicate :=
  match Filter.read text, registry.get? entity with
  | .error e, _ => .error (.ofSyntaxError e)
  | .ok _, none => .error (.unknownEntity entity)
  | .ok f, some _ => ((Session.start registry settings draws).compileNode entity n f).1

/-- The answer to a step without a memory. -/
def answerAnew (registry : Registry) (settings : Settings) (draws : Draws) :
    Step → Option (Except CompileError Predicate)
  | .compile entity n text => some (compileAnew registry settings draws entity n text)
  | .compileDefault entity text =>
    some (compileAnew registry settings draws entity settings.naming text)
  | .compileFor type n text => some (compileAnew registry settings draws type.name n text)
  | .compileNode entity n f =>
    some ((Session.start registry settings draws).compileNode entity n f).1
  | .sweep | .clear | .wait _ => none

/-- The filter that a step compiles, if its text is one. -/
def Step.filter? : Step → Option Filter
  | .compile _ _ text | .compileDefault _ text | .compileFor _ _ text => (Filter.read text).toOption
  | .compileNode _ _ f => some f
  | .sweep | .clear | .wait _ => none

/-- The key under which the answer to a step is cached, if it is. -/
def Step.key? (settings : Settings) : Step → Option PredicateKey
  | .compile entity n text => some ⟨entity, text, n⟩
  | .compileDefault entity text => some ⟨entity, text, settings.naming⟩
  | .compileFor type n text => some ⟨type.name, text, n⟩
  | .compileNode .. | .sweep | .clear | .wait _ => none

theorem compileNode_start (f : Filter) :
    ((Session.start registry settings draws).compileNode entity n f).1 =
      (registry.compile entity n f draws).1 :=
  (agrees_start.compileNode entity n f).1

theorem compileAnew_eq :
    compileAnew registry settings draws entity n text =
      (registry.compileText entity n text draws).1 := by
  unfold compileAnew Registry.compileText
  cases Filter.read text with
  | error e => rfl
  | ok f =>
    cases he : registry.get? entity with
    | none =>
      dsimp only
      rw [Registry.compile, he]
      rfl
    | some e => exact compileNode_start f

end Session

namespace Registry

variable {d d' : Draws} {f : Filter} {q : Predicate} {err : CompileError}

theorem compile_eq_ok : (registry.compile entity n f d).1 = .ok q ↔
    ∃ e, registry.get? entity = some e ∧ (f.compile e n d).1 = .ok q := by
  unfold Registry.compile
  cases registry.get? entity with
  | none => exact ⟨nofun, by rintro ⟨_, ⟨⟩, -⟩⟩
  | some e => exact ⟨fun h => ⟨e, rfl, h⟩, by rintro ⟨_, ⟨⟩, h⟩; exact h⟩

theorem compileText_eq_ok : (registry.compileText entity n text d).1 = .ok q ↔
    ∃ f e, Filter.read text = .ok f ∧ registry.get? entity = some e ∧
      (f.compile e n d).1 = .ok q := by
  unfold compileText
  cases Filter.read text with
  | error err => exact ⟨nofun, by rintro ⟨_, _, ⟨⟩, -⟩⟩
  | ok f =>
    refine compile_eq_ok.trans ⟨fun ⟨e, he, h⟩ => ⟨f, e, rfl, he, h⟩, ?_⟩
    rintro ⟨_, e, ⟨⟩, he, h⟩
    exact ⟨e, he, h⟩

/-- Draws make no errors. -/
theorem compile_eq_error_congr : (registry.compile entity n f d).1 = .error err ↔
    (registry.compile entity n f d').1 = .error err := by
  unfold Registry.compile
  cases registry.get? entity with
  | none => exact Iff.rfl
  | some e =>
    show (f.compile e n d).1 = .error err ↔ (f.compile e n d').1 = .error err
    rw [compile_eq_error meant, compile_eq_error meant]

theorem compileText_eq_error_congr : (registry.compileText entity n text d).1 = .error err ↔
    (registry.compileText entity n text d').1 = .error err := by
  unfold compileText
  cases Filter.read text with
  | error e => exact Iff.rfl
  | ok f => exact compile_eq_error_congr

/-- Where no marker shows, it does not matter which are drawn. -/
theorem compile_congr (h : Hidden d f) (h' : Hidden d' f) :
    (registry.compile entity n f d).1 = (registry.compile entity n f d').1 := by
  unfold Registry.compile
  cases registry.get? entity with
  | none => rfl
  | some e => exact h.compile_eq.trans h'.compile_eq.symm

theorem compileText_congr (h : ∀ f, Filter.read text = .ok f → Hidden d f ∧ Hidden d' f) :
    (registry.compileText entity n text d).1 = (registry.compileText entity n text d').1 := by
  unfold compileText
  cases hread : Filter.read text with
  | error e => rfl
  | ok f => exact compile_congr (h f hread).1 (h f hread).2

/-- A text that compiles does so with other markers, and to the same if none shows. -/
theorem exists_compileText (h : (registry.compileText entity n text d).1 = .ok q) (d' : Draws) :
    ∃ q' d'', registry.compileText entity n text d' = (.ok q', d'') ∧ d'.Leads d'' ∧
      ((∀ f, Filter.read text = .ok f → Hidden d f ∧ Hidden d' f) → q' = q) := by
  obtain ⟨q', hq'⟩ : ∃ q', (registry.compileText entity n text d').1 = .ok q' :=
    (exists_ok_congr fun _ => compileText_eq_error_congr).1 ⟨q, h⟩
  refine ⟨q', (registry.compileText entity n text d').2, Prod.ext hq' rfl,
    registry.leads_compileText entity n text d', fun hhidden => ?_⟩
  exact Except.ok.inj (hq'.symm.trans ((compileText_congr hhidden).symm.trans h))

end Registry

namespace Session

variable {d d' : Draws}

/-- The error of a step does not depend on the markers. -/
theorem answerAnew_eq_error_congr {step : Step} {e : CompileError} :
    answerAnew registry settings d step = some (.error e) ↔
      answerAnew registry settings d' step = some (.error e) := by
  cases step with
  | compile | compileDefault | compileFor =>
    simp only [answerAnew, compileAnew_eq, Option.some.injEq]
    exact Registry.compileText_eq_error_congr
  | compileNode =>
    simp only [answerAnew, compileNode_start, Option.some.injEq]
    exact Registry.compile_eq_error_congr
  | sweep | clear | wait => exact Iff.rfl

/-- Where no marker shows, the answer to a step does not depend on the markers. -/
theorem answerAnew_congr {step : Step} (h : ∀ f, step.filter? = some f → Hidden d f ∧ Hidden d' f) :
    answerAnew registry settings d step = answerAnew registry settings d' step := by
  have htext {text : String} (hf : ∀ f, (Filter.read text).toOption = some f →
      Hidden d f ∧ Hidden d' f) : ∀ f, Filter.read text = .ok f → Hidden d f ∧ Hidden d' f :=
    fun f hread => hf f (by rw [hread]; rfl)
  cases step with
  | compile | compileDefault | compileFor =>
    simp only [answerAnew, compileAnew_eq]
    exact congrArg some (Registry.compileText_congr (htext h))
  | compileNode =>
    simp only [answerAnew, compileNode_start]
    exact congrArg some (Registry.compile_congr (h _ rfl).1 (h _ rfl).2)
  | sweep | clear | wait => rfl

/-! ## Rows of steps -/

/-- **A step answers as without a memory**, with the markers of some time, and remembers only what
would be computed anew. What is not cached is computed with the markers of now. -/
theorem Agrees.perform {t : Timed} (h : t.session.Agrees registry settings draws) (step : Step) :
    (∃ d : Draws, draws.Leads d ∧
      ((∀ k, step.key? settings = some k → t.session.cached? k = none) → d = t.session.draws) ∧
      (t.perform step).1 = answerAnew registry settings d step) ∧
      (t.perform step).2.session.Agrees registry settings draws := by
  have htext (entity : String) (n : Naming) (text : String) :
      ∃ d : Draws, draws.Leads d ∧
        (t.session.cached? ⟨entity, text, n⟩ = none → d = t.session.draws) ∧
        (t.session.compile t.now entity n text).1 =
          compileAnew registry settings d entity n text := by
    obtain ⟨d, hd, hnow, ha⟩ := (h.compile t.now entity n text).1
    exact ⟨d, hd, hnow, ha.trans compileAnew_eq.symm⟩
  cases step with
  | compile entity n text =>
    obtain ⟨d, hd, hnow, ha⟩ := htext entity n text
    exact ⟨⟨d, hd, fun hk => hnow (hk _ rfl), congrArg some ha⟩, (h.compile t.now entity n text).2⟩
  | compileDefault entity text =>
    obtain ⟨d, hd, hnow, ha⟩ := htext entity settings.naming text
    rw [← h.settings_eq] at hnow ha ⊢
    exact ⟨⟨d, hd, fun hk => hnow (hk _ rfl), congrArg some ha⟩,
      h.settings_eq ▸ (h.compile t.now entity t.session.settings.naming text).2⟩
  | compileFor type n text =>
    obtain ⟨d, hd, hnow, ha⟩ := htext type.name n text
    exact ⟨⟨d, hd, fun hk => hnow (hk _ rfl), congrArg some ha⟩,
      (h.compile t.now type.name n text).2⟩
  | compileNode entity n f =>
    obtain ⟨ha, hs⟩ := h.compileNode entity n f
    exact ⟨⟨t.session.draws, h.leads, fun _ => rfl,
      congrArg some (ha.trans (compileNode_start f).symm)⟩, hs⟩
  | sweep => exact ⟨⟨t.session.draws, h.leads, fun _ => rfl, rfl⟩, h.sweep t.now⟩
  | clear => exact ⟨⟨t.session.draws, h.leads, fun _ => rfl, rfl⟩, h.clear⟩
  | wait ms => exact ⟨⟨t.session.draws, h.leads, fun _ => rfl, rfl⟩, h⟩

theorem Agrees.run {t : Timed} (h : t.session.Agrees registry settings draws) (steps : List Step) :
    List.Forall₂ (fun step answer => ∃ d : Draws, draws.Leads d ∧
      answer = answerAnew registry settings d step) steps (t.run steps).1 ∧
      (t.run steps).2.session.Agrees registry settings draws := by
  induction steps generalizing t with
  | nil => exact ⟨.nil, h⟩
  | cons step steps ih =>
    obtain ⟨⟨d, hd, -, ha⟩, hs⟩ := h.perform step
    obtain ⟨hrest, hend⟩ := ih hs
    exact ⟨.cons ⟨d, hd, ha⟩ hrest, hend⟩

/-- A compilation that fails adds no entry to the cache. -/
theorem cached?_perform_error {t : Timed} {step : Step} {e : CompileError}
    (h : (t.perform step).1 = some (.error e)) {k : PredicateKey}
    (hk : t.session.cached? k = none) : (t.perform step).2.session.cached? k = none := by
  cases step with
  | compile entity n text => exact cached?_compile_error (Option.some.inj h) hk
  | compileDefault entity text => exact cached?_compile_error (Option.some.inj h) hk
  | compileFor type n text => exact cached?_compile_error (Option.some.inj h) hk
  | compileNode entity n f => exact hk
  | sweep => simp [Timed.perform] at h
  | clear => simp [Timed.perform] at h
  | wait ms => simp [Timed.perform] at h

/-- **The memory of a session does not show.** Whatever has been compiled, swept, cleared and
waited for, each step is answered as by a new session without a cache: by one with the markers that
were still to come at some time, and of now if nothing is cached for the step. Its errors are those
of any new session, and its predicates, too, if no marker shows in their patterns. Compiling a tree
leaves the cache alone, and a compilation that fails adds nothing to it. -/
theorem run_answers_eq_anew (registry : Registry) (settings : Settings) (draws : Draws)
    (steps : List Step) :
    List.Forall₂ (fun step answer =>
      (∃ d : Draws, draws.Leads d ∧ answer = answerAnew registry settings d step) ∧
      ∀ d : Draws,
        (∀ e, answer = some (.error e) ↔
          answerAnew registry settings d step = some (.error e)) ∧
        ((∀ f, step.filter? = some f → Hidden draws f ∧ Hidden d f) →
          answer = answerAnew registry settings d step))
      steps ((Timed.start registry settings draws).run steps).1 ∧
    let t := ((Timed.start registry settings draws).run steps).2
    (∀ step, (∀ k, step.key? settings = some k → t.session.cached? k = none) →
      (t.perform step).1 = answerAnew registry settings t.session.draws step) ∧
    (∀ entity n f,
      (t.perform (.compileNode entity n f)).2.session.cache = t.session.cache) ∧
    ∀ step e, (t.perform step).1 = some (.error e) →
      ∀ k, t.session.cached? k = none → (t.perform step).2.session.cached? k = none := by
  obtain ⟨hanswers, hend⟩ := Agrees.run (t := .start registry settings draws) agrees_start steps
  refine ⟨hanswers.imp ?_, fun step hk => ?_, fun _ _ _ => rfl,
    fun _ _ h _ hk => cached?_perform_error h hk⟩
  · rintro step _ ⟨d, hd, rfl⟩
    refine ⟨⟨d, hd, rfl⟩, fun d' => ⟨fun e => answerAnew_eq_error_congr, fun h => ?_⟩⟩
    exact answerAnew_congr fun f hf => ⟨(h f hf).1.of_leads hd, (h f hf).2⟩
  · obtain ⟨⟨d, -, hnow, ha⟩, -⟩ := hend.perform step
    rw [ha, hnow hk]

/-- A filter with a pattern, compiled by two sessions with different markers, and then a filter of
an unknown entity. -/
theorem run_answers_eq_anew_pattern :
    let registry : Registry :=
      ⟨[⟨"User", [{ name := "Name", kind := .string }], by decide⟩], by decide⟩
    let f : Filter := .leaf ⟨"Name", .like, [.bare "a*b"], ⟨0, 11, 1, 1⟩⟩
    let step : Step := .compileNode "User" .asIs f
    let last : Step := .compileDefault "Order" ""
    let run := (Timed.start registry {} (.counted 0)).run [.compile "User" .asIs "", .wait 5, step]
    Hidden (.counted 0) f ∧ Hidden (.counted 1) f ∧
      run.1[2]? = some (answerAnew registry {} (.counted 1) step) ∧
      (run.2.perform last).1 = some (.error (.unknownEntity "Order")) ∧
      ∀ k, run.2.session.cached? k = none → (run.2.perform last).2.session.cached? k = none := by
  intro registry f step last run
  have hhidden (d : Draws) : Hidden d f := by
    have hpatterns : f.patterns = [['a', '*', 'b']] := by decide
    rw [Hidden, hpatterns]
    exact List.forall_mem_singleton.2 (d.hidden_of_not_mem (by decide))
  have herr : (run.2.perform last).1 = some (.error (.unknownEntity "Order")) := by
    have hend := (Agrees.run (t := .start registry {} (.counted 0)) agrees_start
      [.compile "User" .asIs "", .wait 5, step]).2
    obtain ⟨⟨d, -, -, ha⟩, -⟩ := hend.perform last
    exact ha
  obtain ⟨hanswers, -, -, h⟩ :=
    run_answers_eq_anew registry {} (.counted 0) [.compile "User" .asIs "", .wait 5, step]
  refine ⟨hhidden _, hhidden _, ?_, herr, h last (.unknownEntity "Order") herr⟩
  obtain ⟨hlength, hget⟩ := List.forall₂_iff_get.1 hanswers
  have hthird : 2 < run.1.length := hlength ▸ by decide
  rw [List.getElem?_eq_getElem hthird]
  refine congrArg some (((hget 2 (by decide) hthird).2 (.counted 1)).2 ?_)
  rintro _ ⟨⟩
  exact ⟨hhidden _, hhidden _⟩

end Session

end RecordFilter

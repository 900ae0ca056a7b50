import RecordFilter.Cache
import RecordFilter.Compile

/-!
# Sessions

A compiler at work: the registered entities, the settings, the properties resolved so far and,
unless the settings disable it, the cache of predicates. The memory of a session changes with every
filter, its answers do not depend on it. They depend on the markers that are drawn for patterns,
which come from outside.
-/

namespace RecordFilter

/-- A compiler with its memory, and the markers that are still to come. -/
structure Session where
  registry : Registry
  settings : Settings
  resolver : Resolver
  cache : Option PredicateCache
  draws : Like.Draws

namespace Session

/-- A session without memory. -/
def start (registry : Registry) (settings : Settings) (draws : Like.Draws) : Session :=
  { registry, settings, draws, resolver := .empty
    cache := if settings.cache.enabled then some (.ofSettings settings.cache) else none }

/-- Resolving a selector with the memory of a resolver. -/
def resolveStep (e : Entity) (n : Naming) (selector : String) :
    StateM (Resolver × Like.Draws) (Except PropertyNotFound Property) :=
  fun (r, draws) =>
    let (answer, r) := r.resolve e n selector
    (answer, r, draws)

/-- Reducing a pattern beside the memory of a resolver. -/
def reduceStep (pattern : List Char) : StateM (Resolver × Like.Draws) Like :=
  fun (r, draws) =>
    let (l, draws) := (Like.ofPattern pattern).run draws
    (l, r, draws)

/-- The predicate of a filter on a registered entity, with the memory of a resolver. -/
def compileStep (registry : Registry) (entity : String) (n : Naming) (f : Filter) :
    StateM (Resolver × Like.Draws) (Except CompileError Predicate) :=
  match registry.get? entity with
  | some e => (Filter.compileWith (resolveStep e n) reduceStep f).run
  | none => return .error (.unknownEntity entity)

/-- The predicate of a filter text on a registered entity, with the memory of a resolver. -/
def compileTextStep (registry : Registry) (entity : String) (n : Naming) (text : String) :
    StateM (Resolver × Like.Draws) (Except CompileError Predicate) :=
  match Filter.read text with
  | .ok f => compileStep registry entity n f
  | .error e => return .error (.ofSyntaxError e)

/-- Compiling a filter tree; the cache of predicates is left alone. -/
def compileNode (s : Session) (entity : String) (n : Naming) (f : Filter) :
    Except CompileError Predicate × Session :=
  let (answer, resolver, draws) := (compileStep s.registry entity n f).run (s.resolver, s.draws)
  (answer, { s with resolver, draws })

/-- Compiling a filter text at a time, from the cache if it is there. -/
def compile (s : Session) (now : Nat) (entity : String) (n : Naming) (text : String) :
    Except CompileError Predicate × Session :=
  let build := compileTextStep s.registry entity n text
  match s.cache with
  | some c =>
    let ((answer, c), resolver, draws) :=
      (c.getOrInsert now ⟨entity, text, n⟩ build).run (s.resolver, s.draws)
    (answer, { s with resolver, draws, cache := some c })
  | none =>
    let (answer, resolver, draws) := build.run (s.resolver, s.draws)
    (answer, { s with resolver, draws })

/-- Compiling a filter text at a time, with the convention of the settings. -/
def compileDefault (s : Session) (now : Nat) (entity text : String) :
    Except CompileError Predicate × Session :=
  s.compile now entity s.settings.naming text

/-- Compiling a filter text at a time, for a type of records. -/
def compileFor (s : Session) (now : Nat) (t : TypedEntity) (n : Naming) (text : String) :
    Except CompileError Predicate × Session :=
  s.compile now t.name n text

/-- Sweeping the cache at a time: how many predicates were dropped, if there is a cache. -/
def sweep (s : Session) (now : Nat) : Option Nat × Session :=
  match s.cache with
  | some c =>
    let (swept, c) := c.sweep now
    (some swept, { s with cache := some c })
  | none => (none, s)

/-- Forgetting all predicates. -/
def clear (s : Session) : Session := { s with cache := s.cache.map PredicateCache.clear }

/-! ## Use -/

/-- What can be done with a session, and waiting, in milliseconds. -/
inductive Step where
  | compile (entity : String) (naming : Naming) (text : String)
  | compileDefault (entity text : String)
  | compileFor (type : TypedEntity) (naming : Naming) (text : String)
  | compileNode (entity : String) (naming : Naming) (filter : Filter)
  | sweep
  | clear
  | wait (ms : Nat)

/-- A session and the time. -/
structure Timed where
  session : Session
  now : Nat

namespace Timed

/-- A session at the beginning of its time. -/
def start (registry : Registry) (settings : Settings) (draws : Like.Draws) : Timed :=
  ⟨.start registry settings draws, 0⟩

/-- A step: the answer, if the step compiles something, and what the session is afterwards. -/
def perform (t : Timed) : Step → Option (Except CompileError Predicate) × Timed
  | .compile entity n text =>
    let (answer, session) := t.session.compile t.now entity n text
    (some answer, { t with session })
  | .compileDefault entity text =>
    let (answer, session) := t.session.compileDefault t.now entity text
    (some answer, { t with session })
  | .compileFor type n text =>
    let (answer, session) := t.session.compileFor t.now type n text
    (some answer, { t with session })
  | .compileNode entity n f =>
    let (answer, session) := t.session.compileNode entity n f
    (some answer, { t with session })
  | .sweep => (none, { t with session := (t.session.sweep t.now).2 })
  | .clear => (none, { t with session := t.session.clear })
  | .wait ms => (none, { t with now := t.now + ms })

/-- Steps one after another: their answers, and what the session is afterwards. -/
def run (t : Timed) : List Step → List (Option (Except CompileError Predicate)) × Timed
  | [] => ([], t)
  | step :: steps =>
    let (answer, t) := t.perform step
    let (answers, t) := t.run steps
    (answer :: answers, t)

end Timed

end Session

end RecordFilter

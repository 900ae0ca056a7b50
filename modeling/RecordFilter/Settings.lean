import RecordFilter.Json.Fields
import RecordFilter.Json.Raw.Reader
import RecordFilter.Naming

/-!
# Settings

The settings of a compiler and their JSON document. Every field has a default, so a document only
names what it changes.
-/

namespace RecordFilter

open Json

/-- Whether predicates are cached, how long an unused one is kept, and how often expired ones are
looked for; both times in seconds. -/
structure CacheSettings where
  enabled : Bool := true
  ttlSeconds : Nat := 300
  sweepSeconds : Nat := 300
  deriving DecidableEq, Repr

/-- The settings of a compiler. -/
structure Settings where
  naming : Naming := .asIs
  cache : CacheSettings := {}
  deriving DecidableEq, Repr

namespace CacheSettings

/-- The settings of a document. -/
def ofRaw (r : Raw) : Option CacheSettings :=
  let d : CacheSettings := {}
  match fields ["enabled", "ttl_secs", "sweep_interval_secs"] r with
  | some [enabled, ttl, sweep] => do
    let enabled ← orDefault d.enabled boolOf? enabled
    let ttlSeconds ← orDefault d.ttlSeconds natOf? ttl
    let sweepSeconds ← orDefault d.sweepSeconds natOf? sweep
    some { enabled, ttlSeconds, sweepSeconds }
  | _ => none

/-- The document of the settings. -/
def toRaw (s : CacheSettings) : Raw :=
  .ofMembers [("enabled", .bool s.enabled), ("ttl_secs", .nat s.ttlSeconds),
    ("sweep_interval_secs", .nat s.sweepSeconds)]

end CacheSettings

namespace Settings

/-- The convention that a document names. -/
def namingOf? (r : Raw) : Option Naming := (bareAlternative r).bind Naming.ofName?

/-- The settings of a document. -/
def ofRaw (r : Raw) : Option Settings :=
  let d : Settings := {}
  match fields ["default_naming", "predicate_cache"] r with
  | some [naming, cache] => do
    let naming ← orDefault d.naming namingOf? naming
    let cache ← orDefault d.cache CacheSettings.ofRaw cache
    some { naming, cache }
  | _ => none

/-- The settings of a JSON text. -/
def read (s : List Char) : Option Settings := (Raw.read s).bind ofRaw

/-- The document of the settings. -/
def toRaw (s : Settings) : Raw :=
  .ofMembers [("default_naming", .text s.naming.name), ("predicate_cache", s.cache.toRaw)]

end Settings

end RecordFilter

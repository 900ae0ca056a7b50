import RecordFilter.Predicate
import RecordFilter.Naming
import RecordFilter.Settings
import RecordFilter.Table

/-!
# The predicate cache

A table of compiled predicates under the text they were compiled from. An entry that has not been
used for longer than the time to live is expired. Expired entries are swept out when the cache is
asked for something and the last sweep is long enough ago, and whenever a sweep is ordered.

The cache has no clock: every operation is told the time, in milliseconds since the cache began.
-/

namespace RecordFilter

/-- What a predicate was compiled from. -/
structure PredicateKey where
  entity : String
  filter : String
  naming : Naming
  deriving DecidableEq, Repr

/-- A predicate and the time of its last use. -/
structure CacheEntry where
  predicate : Predicate
  lastUse : Nat

/-- Predicates with their last uses, the time of the last sweep, and counts of what happened. -/
structure PredicateCache where
  ttl : Nat
  sweepInterval : Nat
  entries : Table PredicateKey CacheEntry := .empty
  lastSweep : Nat := 0
  hits : Nat := 0
  misses : Nat := 0
  evictions : Nat := 0

/-- An entry that has been idle for longer than the time to live. -/
def CacheEntry.expired (e : CacheEntry) (now ttl : Nat) : Bool := ttl < now - e.lastUse

namespace PredicateCache

/-- The number of entries, expired ones included. -/
def size (c : PredicateCache) : Nat := c.entries.size

/-- An empty cache with the times of the settings. -/
def ofSettings (s : CacheSettings) : PredicateCache :=
  { ttl := 1000 * s.ttlSeconds, sweepInterval := 1000 * s.sweepSeconds }

/-- The entries that are not expired. -/
def fresh (c : PredicateCache) (now : Nat) : Table PredicateKey CacheEntry :=
  c.entries.filter fun _ e => !e.expired now c.ttl

/-- The cache without its expired entries, and how many these were. -/
def sweep (c : PredicateCache) (now : Nat) : Nat × PredicateCache :=
  let left := c.fresh now
  let swept := c.entries.size - left.size
  (swept, { c with entries := left, evictions := c.evictions + swept, lastSweep := now })

/-- The cache after a sweep, if one is due. -/
def sweepIfDue (c : PredicateCache) (now : Nat) : PredicateCache :=
  if c.sweepInterval ≤ now - c.lastSweep then (c.sweep now).2 else c

/-- The cache with an entry used at a time. -/
def touch (c : PredicateCache) (now : Nat) (k : PredicateKey) (p : Predicate) : PredicateCache :=
  { c with entries := c.entries.insert k ⟨p, now⟩ }

/-- The predicate under a key, which is used by that; an expired one is dropped and counts as
missing. -/
def get (c : PredicateCache) (now : Nat) (k : PredicateKey) :
    Option Predicate × PredicateCache :=
  let c := c.sweepIfDue now
  match c.entries.get? k with
  | none => (none, { c with misses := c.misses + 1 })
  | some e =>
    if e.expired now c.ttl then
      (none, { c with entries := c.entries.erase k, evictions := c.evictions + 1,
                      misses := c.misses + 1 })
    else (some e.predicate, { c.touch now k e.predicate with hits := c.hits + 1 })

/-- A predicate put under a key, unless there is one already; the one that is there afterwards is
used by that. -/
def insert (c : PredicateCache) (now : Nat) (k : PredicateKey) (p : Predicate) :
    Predicate × PredicateCache :=
  let held := match c.entries.get? k with
    | some e => e.predicate
    | none => p
  (held, c.touch now k held)

/-- The predicate under a key, or else the one that `compute` gives, which is then put there. A
failure is not remembered. -/
def getOrInsert {m : Type → Type} [Monad m] {ε : Type} (c : PredicateCache) (now : Nat)
    (k : PredicateKey) (compute : m (Except ε Predicate)) :
    m (Except ε Predicate × PredicateCache) :=
  match c.get now k with
  | (some p, c) => return (.ok p, c)
  | (none, c) => do
    match ← compute with
    | .ok p =>
      let (held, c) := c.insert now k p
      return (.ok held, c)
    | .error e => return (.error e, c)

/-- The cache without entries; the counts stay. -/
def clear (c : PredicateCache) : PredicateCache := { c with entries := .empty }

end PredicateCache

end RecordFilter

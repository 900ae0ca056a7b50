import RecordFilter.Proofs.Cache.Traffic

/-!
# The accounts of the predicate cache

Nothing is counted twice or left out: every lookup is a hit or a miss, and every entry ever created
is still held, or was evicted, or went when the cache was cleared (`accounts_balance`).

The books are kept over each single request (`balance_perform`). A lookup can drop entries twice, in
the sweep that comes first and by itself. The second time it looks at what the sweep has left, so it
does not count an entry again.
-/

namespace RecordFilter.PredicateCache

variable {ε : Type} {c : PredicateCache} {k : PredicateKey} {t : Nat}

/-! ## What is counted -/

/-- The request is a lookup. -/
def Request.isLookup : Request ε → Bool
  | .get _ | .getOrInsert _ _ => true
  | _ => false

/-- How many entries an insertion under a key creates: one, if the key is absent. -/
def createdAt (c : PredicateCache) (k : PredicateKey) : Nat :=
  if (c.entries.get? k).isSome then 0 else 1

/-- How many entries a call creates: a lookup inserts after a miss whose computation succeeds. -/
def created (c : PredicateCache) (call : Call ε) : Nat :=
  match call.request with
  | .insert k _ => c.createdAt k
  | .getOrInsert k (.ok _) =>
    match c.get call.time k with
    | (none, c) => c.createdAt k
    | (some _, _) => 0
  | _ => 0

/-- How many entries a call drops by clearing the cache. -/
def cleared (c : PredicateCache) (call : Call ε) : Nat :=
  match call.request with
  | .clear => c.size
  | _ => 0

/-- A count over the calls of a run, each with the cache that answers it. -/
def total (count : PredicateCache → Call ε → Nat) (c : PredicateCache) : List (Call ε) → Nat
  | [] => 0
  | call :: calls => count c call + total count (c.perform call.time call.request).2 calls

/-! ## Sweeping -/

/-- **A sweep drops exactly the expired entries.** It answers how many these are, counts them as
evicted, and leaves the others as they are. -/
theorem sweep_spec (c : PredicateCache) (t : Nat) :
    (c.sweep t).2.size + (c.sweep t).1 = c.size ∧
      (c.sweep t).2.evictions = c.evictions + (c.sweep t).1 ∧
      ∀ k e, (c.sweep t).2.entries.get? k = some e ↔
        c.entries.get? k = some e ∧ t - e.lastUse ≤ c.ttl := by
  have hle : (c.fresh t).size ≤ c.entries.size := Table.size_filter_le _ _
  refine ⟨?_, rfl, ?_⟩
  · show (c.fresh t).size + (c.entries.size - (c.fresh t).size) = c.entries.size
    omega
  · intro k e
    rw [← CacheEntry.expired_eq_false_iff, ← Bool.not_eq_true']
    exact Table.get?_filter

/-- A sweep before a lookup keeps the books. -/
theorem balance_sweepIfDue (c : PredicateCache) (t : Nat) :
    (c.sweepIfDue t).size + (c.sweepIfDue t).evictions = c.size + c.evictions := by
  unfold sweepIfDue
  split
  · obtain ⟨hsize, hevictions, -⟩ := sweep_spec c t
    omega
  · rfl

/-! ## One request -/

theorem size_touch (c : PredicateCache) (t : Nat) (k : PredicateKey) (p : Predicate) :
    (c.touch t k p).size = c.size + c.createdAt k :=
  Table.size_insert c.entries k ⟨p, t⟩

/-- A lookup drops entries only as evicted. -/
theorem balance_get (c : PredicateCache) (t : Nat) (k : PredicateKey) :
    (c.get t k).2.size + (c.get t k).2.evictions = c.size + c.evictions := by
  have hswept := balance_sweepIfDue c t
  rcases get_cases c t k with ⟨-, hr⟩ | ⟨e, hg, -, hr⟩ | ⟨e, hg, -, hr⟩
  · rw [hr]
    exact hswept
  · have herase := Table.size_erase_add (c.sweepIfDue t).entries k
    rw [hg] at herase
    rw [hr, ← hswept]
    simp only [size, Option.isSome_some, if_true] at herase ⊢
    omega
  · have htouch := size_touch (c.sweepIfDue t) t k e.predicate
    rw [createdAt, hg] at htouch
    rw [hr, ← hswept]
    exact congrArg (· + (c.sweepIfDue t).evictions) htouch

/-- A lookup with a computation that succeeds creates an entry after a miss. -/
theorem created_getOrInsert (c : PredicateCache) (t : Nat) (k : PredicateKey) (p : Predicate) :
    c.created (⟨t, .getOrInsert k (.ok p)⟩ : Call ε) = match c.live t k with
      | some _ => 0
      | none => (c.get t k).2.createdAt k := by
  have hanswer := (get_spec c t k).1
  show (match c.get t k with
    | (none, c) => c.createdAt k
    | (some _, _) => 0) = _
  cases hl : c.live t k with
  | some e =>
    rw [hl] at hanswer
    have hpair : c.get t k = (some e.predicate, (c.get t k).2) := Prod.ext hanswer rfl
    rw [hpair]
  | none =>
    rw [hl] at hanswer
    have hpair : c.get t k = (none, (c.get t k).2) := Prod.ext hanswer rfl
    rw [hpair]

/-- **Each request keeps the books.** -/
theorem balance_perform (c : PredicateCache) (call : Call ε) :
    let after := (c.perform call.time call.request).2
    after.size + after.evictions + c.cleared call = c.size + c.evictions + c.created call := by
  obtain ⟨t, r⟩ := call
  cases r with
  | get k => exact balance_get c t k
  | insert k p =>
    have htouch := size_touch c t k (c.insert t k p).1
    show (c.touch t k (c.insert t k p).1).size + c.evictions = c.size + c.evictions + c.createdAt k
    omega
  | getOrInsert k result =>
    have hget := balance_get c t k
    rw [perform_getOrInsert]
    cases result with
    | error err =>
      cases c.live t k with
      | some e => exact hget
      | none => exact hget
    | ok p =>
      rw [created_getOrInsert]
      cases c.live t k with
      | some e => exact hget
      | none =>
        have htouch := size_touch (c.get t k).2 t k p
        show ((c.get t k).2.touch t k p).size + (c.get t k).2.evictions =
          c.size + c.evictions + (c.get t k).2.createdAt k
        omega
  | sweep =>
    obtain ⟨hsize, hevictions, -⟩ := sweep_spec c t
    show (c.sweep t).2.size + (c.sweep t).2.evictions = c.size + c.evictions
    omega
  | clear =>
    show 0 + c.evictions + c.size = c.size + c.evictions
    omega

/-- A lookup is answered by a hit or by a miss, and nothing else is. -/
theorem isHit_add_isMiss (c : PredicateCache) (t : Nat) (r : Request ε) :
    ((if (c.perform t r).1.isHit then 1 else 0) + if (c.perform t r).1.isMiss then 1 else 0) =
      if r.isLookup then 1 else 0 := by
  cases r with
  | get k =>
    rw [perform_get]
    cases c.live t k <;> rfl
  | getOrInsert k result =>
    rw [perform_getOrInsert]
    cases c.live t k with
    | some e => rfl
    | none => cases result <;> rfl
  | insert k p => rfl
  | sweep => rfl
  | clear => rfl

/-! ## Runs -/

theorem balance_run (c : PredicateCache) (calls : List (Call ε)) :
    let after := (c.run calls).2
    after.size + after.evictions + total cleared c calls =
      c.size + c.evictions + total created c calls := by
  induction calls generalizing c with
  | nil => rfl
  | cons call calls ih =>
    have hrest := ih (c.perform call.time call.request).2
    have hfirst := balance_perform c call
    simp only [run_cons, total] at hrest hfirst ⊢
    omega

theorem lookups_run (c : PredicateCache) (calls : List (Call ε)) :
    (c.run calls).2.hits + (c.run calls).2.misses =
      c.hits + c.misses + calls.countP (·.request.isLookup) := by
  induction calls generalizing c with
  | nil => rfl
  | cons call calls ih =>
    have hrest := ih (c.perform call.time call.request).2
    obtain ⟨hhits, hmisses⟩ := counts_perform c call.time call.request
    have hfirst := isHit_add_isMiss c call.time call.request
    simp only [run_cons, List.countP_cons, hhits, hmisses] at hrest ⊢
    omega

/-- **The accounts balance.** In every state that requests at any times lead to, hits and misses
add up to the lookups, and the entries ever created are the ones held, evicted and cleared. A sweep
from there drops exactly the entries idle for longer than the time to live, answers how many these
are, and leaves the predicate and the last use of every other one as they are. -/
theorem accounts_balance (ttl sweepInterval : Nat) (calls : List (Call ε)) :
    let start := unused ttl sweepInterval
    let c := (start.run calls).2
    c.hits + c.misses = calls.countP (·.request.isLookup) ∧
    total created start calls = c.size + c.evictions + total cleared start calls ∧
    ∀ t, let (swept, after) := c.sweep t
      after.size + swept = c.size ∧ after.evictions = c.evictions + swept ∧
      ∀ k e, after.entries.get? k = some e ↔
        c.entries.get? k = some e ∧ t - e.lastUse ≤ ttl := by
  intro start c
  have hlookups := lookups_run start calls
  have hbalance := balance_run start calls
  refine ⟨?_, ?_, fun t => ?_⟩
  · exact hlookups.trans (Nat.zero_add _)
  · exact (hbalance.trans (Nat.zero_add _)).symm
  · have hspec := sweep_spec c t
    have httl : c.ttl = ttl := ttl_run start calls
    rw [httl] at hspec
    exact hspec

end RecordFilter.PredicateCache

import RecordFilter.Proofs.Cache.Entries

/-!
# Traffic on the predicate cache

Requests to a cache, each at its time, with the answers to them in a log.

`live` is what a cache would still serve at a time: the entries that are not expired then. No sweep
changes it, neither for the time of the sweep nor for a later one (`live_sweep`), and a lookup is
decided by it alone (`get_spec`, `perform_getOrInsert`). So where and when expired entries are
dropped is nowhere to be seen in it.
-/

namespace RecordFilter

/-! ## Expiry -/

theorem CacheEntry.expired_eq_false_iff {e : CacheEntry} {t ttl : Nat} :
    e.expired t ttl = false ↔ t - e.lastUse ≤ ttl := by
  simp [expired]

/-- What is expired stays so. -/
theorem CacheEntry.expired_eq_false_of_le {e : CacheEntry} {t t' ttl : Nat} (ht : t ≤ t')
    (h : e.expired t' ttl = false) : e.expired t ttl = false := by
  rw [expired_eq_false_iff] at h ⊢
  omega

theorem CacheEntry.expired_self (p : Predicate) (t ttl : Nat) :
    CacheEntry.expired ⟨p, t⟩ t ttl = false := by
  rw [expired_eq_false_iff, Nat.sub_self]
  exact Nat.zero_le ttl

namespace PredicateCache

variable {ε : Type} {c : PredicateCache} {k k' : PredicateKey} {e : CacheEntry} {p : Predicate}
  {t t' : Nat}

/-! ## Requests -/

/-- What a cache is asked to do. The computation of a lookup is given by its result. -/
inductive Request (ε : Type) where
  | get (k : PredicateKey)
  | insert (k : PredicateKey) (p : Predicate)
  | getOrInsert (k : PredicateKey) (result : Except ε Predicate)
  | sweep
  | clear

/-- What a cache answers: to a lookup also how often the computation was run. -/
inductive Answer (ε : Type) where
  | found (p : Option Predicate)
  | held (p : Predicate)
  | computed (result : Except ε Predicate) (runs : Nat)
  | swept (n : Nat)
  | cleared

/-- A request at a time. -/
structure Call (ε : Type) where
  time : Nat
  request : Request ε

/-- A call with the answer to it. -/
structure Exchange (ε : Type) extends Call ε where
  answer : Answer ε

/-- A computation with the given result that counts how often it is run. -/
def counted (result : Except ε Predicate) : StateM Nat (Except ε Predicate) :=
  fun runs => (result, runs + 1)

/-- What a cache answers to a request at a time, and the cache afterwards. -/
def perform (c : PredicateCache) (now : Nat) : Request ε → Answer ε × PredicateCache
  | .get k =>
    let (p, c) := c.get now k
    (.found p, c)
  | .insert k p =>
    let (p, c) := c.insert now k p
    (.held p, c)
  | .getOrInsert k result =>
    let ((result, c), runs) := (c.getOrInsert now k (counted result)).run 0
    (.computed result runs, c)
  | .sweep =>
    let (n, c) := c.sweep now
    (.swept n, c)
  | .clear => (.cleared, c.clear)

/-- Calls one after another: the log of them, and the cache afterwards. -/
def run (c : PredicateCache) : List (Call ε) → List (Exchange ε) × PredicateCache
  | [] => ([], c)
  | call :: calls =>
    let (answer, c) := c.perform call.time call.request
    let (log, c) := c.run calls
    ({ call with answer } :: log, c)

/-- A cache without entries, with its two times in milliseconds. -/
def unused (ttl sweepInterval : Nat) : PredicateCache := { ttl, sweepInterval }

/-- The clock does not go back from one call to a later one. -/
def InOrder (calls : List (Call ε)) : Prop := calls.Pairwise fun a b => a.time ≤ b.time

/-- A request at a time with what the cache answers to it. -/
def exchange (c : PredicateCache) (t : Nat) (r : Request ε) : Exchange ε :=
  { time := t, request := r, answer := (c.perform t r).1 }

theorem run_cons (c : PredicateCache) (call : Call ε) (calls : List (Call ε)) :
    c.run (call :: calls) =
      (c.exchange call.time call.request :: ((c.perform call.time call.request).2.run calls).1,
        ((c.perform call.time call.request).2.run calls).2) := rfl

theorem run_append (c : PredicateCache) (calls more : List (Call ε)) :
    c.run (calls ++ more) =
      ((c.run calls).1 ++ ((c.run calls).2.run more).1, ((c.run calls).2.run more).2) := by
  induction calls generalizing c with
  | nil => rfl
  | cons call calls ih =>
    simp only [List.cons_append, run_cons, ih]

/-! ## What a cache would serve -/

/-- The entry under a key, unless it is expired at a time. -/
def live (c : PredicateCache) (t : Nat) (k : PredicateKey) : Option CacheEntry :=
  (c.entries.get? k).filter fun e => !e.expired t c.ttl

theorem live_eq_some_iff :
    c.live t k = some e ↔ c.entries.get? k = some e ∧ e.expired t c.ttl = false := by
  simp [live, Option.filter_eq_some_iff]

theorem live_eq_none_iff :
    c.live t k = none ↔ ∀ e, c.entries.get? k = some e → e.expired t c.ttl = true := by
  simp [live, Option.filter_eq_none_iff]

/-- What is served later is what is served now and not expired by then. -/
theorem live_of_le (ht : t ≤ t') :
    c.live t' k = (c.live t k).filter fun e => !e.expired t' c.ttl := by
  ext e
  simp only [live_eq_some_iff, Option.filter_eq_some_iff, Bool.not_eq_true']
  constructor
  · rintro ⟨he, hlater⟩
    exact ⟨⟨he, e.expired_eq_false_of_le ht hlater⟩, hlater⟩
  · rintro ⟨⟨he, -⟩, hlater⟩
    exact ⟨he, hlater⟩

/-! ### Sweeping -/

/-- **A sweep takes nothing away that would be served**, then or later. -/
theorem live_sweep (ht : t ≤ t') : (c.sweep t).2.live t' k = c.live t' k := by
  ext e
  have hget : (c.sweep t).2.entries.get? k = some e ↔
      c.entries.get? k = some e ∧ (!e.expired t c.ttl) = true := Table.get?_filter
  have httl : (c.sweep t).2.ttl = c.ttl := rfl
  rw [live_eq_some_iff, live_eq_some_iff, hget, httl]
  constructor
  · rintro ⟨⟨he, -⟩, hlater⟩
    exact ⟨he, hlater⟩
  · rintro ⟨he, hlater⟩
    have hnow : e.expired t c.ttl = false := e.expired_eq_false_of_le ht hlater
    exact ⟨⟨he, by rw [hnow]; rfl⟩, hlater⟩

theorem live_sweepIfDue (ht : t ≤ t') : (c.sweepIfDue t).live t' k = c.live t' k := by
  unfold sweepIfDue
  split
  · exact live_sweep ht
  · rfl

theorem ttl_sweepIfDue : (c.sweepIfDue t).ttl = c.ttl := by
  unfold sweepIfDue
  split <;> rfl

theorem hits_sweepIfDue : (c.sweepIfDue t).hits = c.hits := by
  unfold sweepIfDue
  split <;> rfl

theorem misses_sweepIfDue : (c.sweepIfDue t).misses = c.misses := by
  unfold sweepIfDue
  split <;> rfl

/-! ### Using -/

theorem live_touch_self : (c.touch t k p).live t k = some ⟨p, t⟩ :=
  live_eq_some_iff.2 ⟨Table.get?_insert_self _ _ _, CacheEntry.expired_self p t _⟩

theorem live_touch_of_ne (h : k' ≠ k) : (c.touch t k p).live t' k' = c.live t' k' := by
  rw [live, live, touch, Table.get?_insert_of_ne _ _ h]

/-! ### Looking up -/

/-- **A lookup serves what is live**, and only the entry looked up is used by it. -/
theorem get_spec (c : PredicateCache) (t : Nat) (k : PredicateKey) :
    (c.get t k).1 = (c.live t k).map CacheEntry.predicate ∧
      ∀ k', (c.get t k).2.live t k' =
        if k' = k then (c.live t k).map fun e => ⟨e.predicate, t⟩ else c.live t k' := by
  have hlive : ∀ k', (c.sweepIfDue t).live t k' = c.live t k' := fun k' =>
    live_sweepIfDue (Nat.le_refl t)
  rcases get_cases c t k with ⟨hg, hr⟩ | ⟨e, hg, he, hr⟩ | ⟨e, hg, he, hr⟩
  · have hnone : c.live t k = none := by
      rw [← hlive, live, hg]
      rfl
    rw [hr, hnone]
    refine ⟨rfl, fun k' => ?_⟩
    split
    · next hk =>
      rw [hk]
      exact (hlive k).trans hnone
    · exact hlive k'
  · have hnone : c.live t k = none := by
      rw [← hlive, live_eq_none_iff]
      rintro e' he'
      rw [hg] at he'
      cases he'
      exact he
    rw [hr, hnone]
    refine ⟨rfl, fun k' => ?_⟩
    split
    · next hk =>
      rw [hk, live, Table.get?_erase_self]
      rfl
    · next hk =>
      rw [← hlive, live, live, Table.get?_erase_of_ne _ hk]
  · have hsome : c.live t k = some e := by
      rw [← hlive]
      exact live_eq_some_iff.2 ⟨hg, he⟩
    rw [hr, hsome]
    refine ⟨rfl, fun k' => ?_⟩
    split
    · next hk =>
      rw [hk]
      exact live_touch_self
    · next hk =>
      rw [← hlive]
      exact live_touch_of_ne hk

theorem ttl_get (c : PredicateCache) (t : Nat) (k : PredicateKey) : (c.get t k).2.ttl = c.ttl := by
  rcases get_cases c t k with ⟨-, hr⟩ | ⟨e, -, -, hr⟩ | ⟨e, -, -, hr⟩ <;> rw [hr]
  all_goals exact ttl_sweepIfDue

/-- **Looking up or computing.** What is live is served and nothing is computed. Otherwise the
computation is run once: its predicate is put under the key, its error leaves the cache as the
lookup does. -/
theorem perform_getOrInsert (c : PredicateCache) (t : Nat) (k : PredicateKey)
    (result : Except ε Predicate) :
    c.perform t (.getOrInsert k result) = match c.live t k, result with
      | some e, _ => (.computed (.ok e.predicate) 0, (c.get t k).2)
      | none, .ok p => (.computed (.ok p) 1, (c.get t k).2.touch t k p)
      | none, .error e => (.computed (.error e) 1, (c.get t k).2) := by
  obtain ⟨hanswer, -⟩ := get_spec c t k
  have hrun := getOrInsert_run c t k (counted result) 0
  cases hl : c.live t k with
  | some e =>
    have hget : c.get t k = (some e.predicate, (c.get t k).2) := by
      rw [hl] at hanswer
      exact Prod.ext hanswer rfl
    rw [hget] at hrun
    simp only [perform, StateT.run, hrun]
  | none =>
    rw [hl] at hanswer
    have hget : c.get t k = (none, (c.get t k).2) := Prod.ext hanswer rfl
    rw [hget] at hrun
    cases result with
    | ok p =>
      simp only [counted] at hrun
      rw [insert_of_get?_eq_none (get?_of_get_eq_none hanswer)] at hrun
      simp only [perform, StateT.run, hrun]
    | error e =>
      simp only [counted] at hrun
      simp only [perform, StateT.run, hrun]

theorem perform_get (c : PredicateCache) (t : Nat) (k : PredicateKey) :
    c.perform t (.get k : Request ε) =
      (.found ((c.live t k).map CacheEntry.predicate), (c.get t k).2) := by
  rw [← (get_spec c t k).1]
  rfl

theorem ttl_perform (c : PredicateCache) (t : Nat) (r : Request ε) :
    (c.perform t r).2.ttl = c.ttl := by
  cases r with
  | get k => exact ttl_get c t k
  | insert k p => rfl
  | getOrInsert k result =>
    rw [perform_getOrInsert]
    have hget := ttl_get c t k
    split
    · exact hget
    · exact hget
    · exact hget
  | sweep => rfl
  | clear => rfl

theorem ttl_run (c : PredicateCache) (calls : List (Call ε)) : (c.run calls).2.ttl = c.ttl := by
  induction calls generalizing c with
  | nil => rfl
  | cons call calls ih => rw [run_cons, ih, ttl_perform]

/-! ## Counting -/

/-- The answer serves a predicate that was there, without a computation. -/
def Answer.isHit : Answer ε → Bool
  | .found (some _) => true
  | .computed _ 0 => true
  | _ => false

/-- The answer to a lookup that serves nothing that was there. -/
def Answer.isMiss : Answer ε → Bool
  | .found none => true
  | .computed _ (_ + 1) => true
  | _ => false

theorem hits_get (c : PredicateCache) (t : Nat) (k : PredicateKey) :
    (c.get t k).2.hits = c.hits + if (c.live t k).isSome then 1 else 0 := by
  rw [← Option.isSome_map (f := CacheEntry.predicate), ← (get_spec c t k).1]
  rcases get_cases c t k with ⟨-, hr⟩ | ⟨e, -, -, hr⟩ | ⟨e, -, -, hr⟩
  · rw [hr]
    exact hits_sweepIfDue
  · rw [hr]
    exact hits_sweepIfDue
  · rw [hr]
    exact congrArg (· + 1) hits_sweepIfDue

theorem misses_get (c : PredicateCache) (t : Nat) (k : PredicateKey) :
    (c.get t k).2.misses = c.misses + if (c.live t k).isSome then 0 else 1 := by
  rw [← Option.isSome_map (f := CacheEntry.predicate), ← (get_spec c t k).1]
  rcases get_cases c t k with ⟨-, hr⟩ | ⟨e, -, -, hr⟩ | ⟨e, -, -, hr⟩
  · rw [hr]
    exact congrArg (· + 1) misses_sweepIfDue
  · rw [hr]
    exact congrArg (· + 1) misses_sweepIfDue
  · rw [hr]
    exact misses_sweepIfDue

/-- The counters follow the answers. -/
theorem counts_perform (c : PredicateCache) (t : Nat) (r : Request ε) :
    (c.perform t r).2.hits = c.hits + (if (c.perform t r).1.isHit then 1 else 0) ∧
      (c.perform t r).2.misses = c.misses + if (c.perform t r).1.isMiss then 1 else 0 := by
  cases r with
  | get k =>
    rw [perform_get, hits_get, misses_get]
    cases c.live t k <;> exact ⟨rfl, rfl⟩
  | insert k p => exact ⟨rfl, rfl⟩
  | getOrInsert k result =>
    have hhits := hits_get c t k
    have hmisses := misses_get c t k
    rw [perform_getOrInsert]
    cases hl : c.live t k with
    | some e =>
      rw [hl] at hhits hmisses
      exact ⟨hhits, hmisses⟩
    | none =>
      rw [hl] at hhits hmisses
      cases result with
      | ok p => exact ⟨hhits, hmisses⟩
      | error e => exact ⟨hhits, hmisses⟩
  | sweep => exact ⟨rfl, rfl⟩
  | clear => exact ⟨rfl, rfl⟩

theorem counts_run (c : PredicateCache) (calls : List (Call ε)) :
    (c.run calls).2.hits = c.hits + (c.run calls).1.countP (·.answer.isHit) ∧
      (c.run calls).2.misses = c.misses + (c.run calls).1.countP (·.answer.isMiss) := by
  induction calls generalizing c with
  | nil => exact ⟨rfl, rfl⟩
  | cons call calls ih =>
    obtain ⟨hhits, hmisses⟩ := ih (c.perform call.time call.request).2
    obtain ⟨hhit, hmiss⟩ := counts_perform c call.time call.request
    simp only [run, List.countP_cons]
    omega

end PredicateCache

end RecordFilter

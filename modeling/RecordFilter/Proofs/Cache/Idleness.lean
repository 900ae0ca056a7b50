import RecordFilter.Proofs.Cache.Staleness

/-!
# How long unused entries are kept

Nothing drops an expired entry at the moment it expires: it goes with the next sweep, and sweeps
come with lookups. So an entry outlives its time to live, but after a lookup by less than the
interval between two sweeps (`idle_after_lookup`).

The bound rests on the time of the last sweep. What is held was not expired then, or has been used
since; and the lookup either sweeps again or comes less than the interval after it. `Kept` says the
first half, and every request keeps it. A new cache counts as swept at time 0.
-/

namespace RecordFilter.PredicateCache

variable {ε : Type} {c : PredicateCache} {k k₀ : PredicateKey} {e : CacheEntry} {p : Predicate}
  {t t' : Nat} {calls : List (Call ε)} {ttl sweepInterval : Nat}

/-! ## The last sweep -/

/-- A cache with these two times that has not been swept later than at time `t`, and that holds no
entry which was expired at its last sweep. -/
structure Kept (ttl sweepInterval t : Nat) (c : PredicateCache) : Prop where
  ttl_eq : c.ttl = ttl
  interval_eq : c.sweepInterval = sweepInterval
  lastSweep_le : c.lastSweep ≤ t
  fresh : ∀ k e, c.entries.get? k = some e → e.expired c.lastSweep ttl = false

theorem kept_unused : Kept ttl sweepInterval t (unused ttl sweepInterval) where
  ttl_eq := rfl
  interval_eq := rfl
  lastSweep_le := Nat.zero_le t
  fresh := nofun

theorem Kept.of_le (h : Kept ttl sweepInterval t c) (ht : t ≤ t') :
    Kept ttl sweepInterval t' c :=
  { h with lastSweep_le := Nat.le_trans h.lastSweep_le ht }

theorem Kept.sweep (h : Kept ttl sweepInterval t c) : Kept ttl sweepInterval t (c.sweep t).2 where
  ttl_eq := h.ttl_eq
  interval_eq := h.interval_eq
  lastSweep_le := Nat.le_refl t
  fresh := by
    intro k e he
    have hfresh : (!e.expired t c.ttl) = true := (Table.get?_filter.1 he).2
    rw [h.ttl_eq, Bool.not_eq_true'] at hfresh
    exact hfresh

theorem Kept.sweepIfDue (h : Kept ttl sweepInterval t c) :
    Kept ttl sweepInterval t (c.sweepIfDue t) := by
  unfold PredicateCache.sweepIfDue
  split
  · exact h.sweep
  · exact h

/-- What is used now was not expired at a sweep before now. -/
theorem Kept.touch (h : Kept ttl sweepInterval t c) (k : PredicateKey) (p : Predicate) :
    Kept ttl sweepInterval t (c.touch t k p) where
  ttl_eq := h.ttl_eq
  interval_eq := h.interval_eq
  lastSweep_le := h.lastSweep_le
  fresh := by
    intro k' e he
    rcases get?_of_touch he with ⟨-, hlast⟩ | ⟨-, hheld⟩
    · have hswept : c.lastSweep ≤ e.lastUse := hlast ▸ h.lastSweep_le
      rw [CacheEntry.expired_eq_false_iff]
      show c.lastSweep - e.lastUse ≤ ttl
      omega
    · exact h.fresh k' e hheld

theorem Kept.get (h : Kept ttl sweepInterval t c) (k : PredicateKey) :
    Kept ttl sweepInterval t (c.get t k).2 := by
  have hs := h.sweepIfDue
  rcases get_cases c t k with ⟨-, hr⟩ | ⟨e, -, -, hr⟩ | ⟨e, -, -, hr⟩
  · rw [hr]
    exact { hs with }
  · rw [hr]
    exact { hs with fresh := fun k' e he => hs.fresh k' e (Table.get?_filter.1 he).1 }
  · rw [hr]
    exact { hs.touch k e.predicate with }

/-- Every request keeps it: what it puts into the cache is used by that, and what a sweep leaves is
not expired. -/
theorem Kept.perform (h : Kept ttl sweepInterval t c) (r : Request ε) :
    Kept ttl sweepInterval t (c.perform t r).2 := by
  cases r with
  | get k => exact h.get k
  | insert k p => exact h.touch k _
  | getOrInsert k result =>
    rw [perform_getOrInsert]
    split
    · exact h.get k
    · exact (h.get k).touch k _
    · exact h.get k
  | sweep => exact h.sweep
  | clear => exact { h with fresh := nofun }

theorem kept_run (ttl sweepInterval : Nat) (hclock : InOrder calls)
    (ht : ∀ call ∈ calls, call.time ≤ t) :
    Kept ttl sweepInterval t ((unused ttl sweepInterval).run calls).2 := by
  induction calls using List.reverseRecOn generalizing t with
  | nil => exact kept_unused
  | append_singleton calls call ih =>
    obtain ⟨hcalls, hlast⟩ := inOrder_snoc.1 hclock
    rw [run_snoc]
    exact ((ih hcalls hlast).perform call.request).of_le (ht call (by simp))

/-! ## After a lookup -/

/-- Every entry has been idle at time `t` for at most the time to live, or for less than that and
the interval between sweeps together; with the interval 0, none is expired. -/
def Tidy (ttl sweepInterval t : Nat) (c : PredicateCache) : Prop :=
  ∀ k e, c.entries.get? k = some e →
    (t - e.lastUse ≤ ttl ∨ t - e.lastUse < ttl + sweepInterval) ∧
      (sweepInterval = 0 → e.expired t ttl = false)

/-- A sweep drops what is expired. Where none is due, the last one is less than the interval ago. -/
theorem Kept.tidy_sweepIfDue (h : Kept ttl sweepInterval t c) :
    Tidy ttl sweepInterval t (c.sweepIfDue t) := by
  intro k e he
  have hfresh := h.sweepIfDue.fresh k e he
  rw [CacheEntry.expired_eq_false_iff] at hfresh ⊢
  unfold PredicateCache.sweepIfDue at hfresh
  split at hfresh
  · have hidle : t - e.lastUse ≤ ttl := hfresh
    exact ⟨.inl hidle, fun _ => hidle⟩
  · next hdue =>
    rw [h.interval_eq] at hdue
    have hswept := h.lastSweep_le
    exact ⟨.inr (by omega), fun hzero => by omega⟩

theorem Tidy.touch (h : Tidy ttl sweepInterval t c) (k : PredicateKey) (p : Predicate) :
    Tidy ttl sweepInterval t (c.touch t k p) := by
  intro k' e he
  rcases get?_of_touch he with ⟨-, hlast⟩ | ⟨-, hheld⟩
  · have hidle : t - e.lastUse ≤ ttl := by omega
    exact ⟨.inl hidle, fun _ => CacheEntry.expired_eq_false_iff.2 hidle⟩
  · exact h k' e hheld

theorem Kept.tidy_get (h : Kept ttl sweepInterval t c) (k : PredicateKey) :
    Tidy ttl sweepInterval t (c.get t k).2 := by
  have hs := h.tidy_sweepIfDue
  rcases get_cases c t k with ⟨-, hr⟩ | ⟨e, -, -, hr⟩ | ⟨e, -, -, hr⟩
  · rw [hr]
    exact hs
  · rw [hr]
    exact fun k' e he => hs k' e (Table.get?_filter.1 he).1
  · rw [hr]
    exact hs.touch k e.predicate

theorem Kept.tidy_perform (h : Kept ttl sweepInterval t c) {r : Request ε} (hr : r.LooksUp k) :
    Tidy ttl sweepInterval t (c.perform t r).2 := by
  rcases hr with rfl | ⟨result, rfl⟩
  · exact h.tidy_get k
  · rw [perform_getOrInsert]
    split
    · exact h.tidy_get k
    · exact (h.tidy_get k).touch k _
    · exact h.tidy_get k

/-- **Expired entries do not stay long under lookups.** After any run, a lookup leaves only entries
that have been idle for at most the time to live, or for less than that and the interval between
sweeps together; with the interval 0 it leaves no expired one. This holds right after the lookup,
and still after what a failed lookup computes has been put into the cache. -/
theorem idle_after_lookup (ttl sweepInterval : Nat) (calls : List (Call ε))
    (hclock : InOrder calls) (t : Nat) (ht : ∀ call ∈ calls, call.time ≤ t) (k : PredicateKey) :
    let c := ((unused ttl sweepInterval).run calls).2
    Tidy ttl sweepInterval t (c.get t k).2 ∧
      ∀ r : Request ε, r.LooksUp k → Tidy ttl sweepInterval t (c.perform t r).2 := by
  intro c
  have hkept : Kept ttl sweepInterval t c := kept_run ttl sweepInterval hclock ht
  exact ⟨hkept.tidy_get k, fun r hr => hkept.tidy_perform hr⟩

/-- The bound is reached: an entry outlives the sweep at the end of its time to live, and is still
there at the end of the interval after it. -/
theorem idle_after_lookup_longest :
    let k : PredicateKey := ⟨"User", "f", .asIs⟩
    let other : PredicateKey := ⟨"User", "g", .asIs⟩
    let calls : List (Call Unit) := [⟨0, .insert k (.const true)⟩, ⟨20, .sweep⟩]
    let c := ((unused 20 7).run calls).2
    InOrder calls ∧ (∀ call ∈ calls, call.time ≤ 26) ∧
      (c.get 26 other).2.entries.get? k = some ⟨.const true, 0⟩ ∧ 26 - 0 = 20 + 7 - 1 ∧
      Tidy 20 7 26 (c.get 26 other).2 := by
  intro k other calls c
  have hclock : InOrder calls := by simp [InOrder, calls]
  have htime : ∀ call ∈ calls, call.time ≤ 26 := by simp [calls]
  obtain ⟨htidy, -⟩ := idle_after_lookup 20 7 calls hclock 26 htime other
  exact ⟨hclock, htime, rfl, rfl, htidy⟩

end RecordFilter.PredicateCache

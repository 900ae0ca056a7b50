import RecordFilter.Proofs.Cache.HitLaw

/-!
# Which requests serve expired predicates

A lookup never serves a predicate that has been idle for longer than the time to live. An insertion
does: it serves whatever is held under its key, and does not ask how long that has been idle
(`served_unless_idle`). Only where a sweep has come between does it store the new predicate
(`insert_sweep`), so its answer depends on when sweeps run (`insert_serves_expired`).
-/

namespace RecordFilter.PredicateCache

variable {ε : Type} {c : PredicateCache} {k k₀ : PredicateKey} {e : CacheEntry} {p : Predicate}
  {t t' : Nat} {log : List (Exchange ε)} {calls : List (Call ε)} {ttl sweepInterval : Nat}

/-! ## What is held -/

theorem get?_of_sweepIfDue (h : (c.sweepIfDue t).entries.get? k = some e) :
    c.entries.get? k = some e := by
  unfold sweepIfDue at h
  split at h
  · exact (Table.get?_filter.1 h).1
  · exact h

theorem get?_of_touch (h : (c.touch t k₀ p).entries.get? k = some e) :
    k = k₀ ∧ e.lastUse = t ∨ k ≠ k₀ ∧ c.entries.get? k = some e := by
  by_cases hk : k = k₀
  · subst hk
    rw [touch, Table.get?_insert_self] at h
    cases h
    exact .inl ⟨rfl, rfl⟩
  · rw [touch, Table.get?_insert_of_ne _ _ hk] at h
    exact .inr ⟨hk, h⟩

/-- After a lookup, an entry is the one found, or was held before under another key. -/
theorem get?_of_get (h : (c.get t k₀).2.entries.get? k = some e) :
    k = k₀ ∧ (∃ p, (c.get t k₀).1 = some p) ∧ e.lastUse = t ∨
      k ≠ k₀ ∧ c.entries.get? k = some e := by
  rcases get_cases c t k₀ with ⟨hg, hr⟩ | ⟨e₀, -, -, hr⟩ | ⟨e₀, -, -, hr⟩
  · rw [hr] at h
    refine .inr ⟨?_, get?_of_sweepIfDue h⟩
    rintro rfl
    have h : (c.sweepIfDue t).entries.get? k = some e := h
    rw [hg] at h
    cases h
  · rw [hr] at h
    have hk : k ≠ k₀ := by
      rintro rfl
      have h : ((c.sweepIfDue t).entries.erase k).get? k = some e := h
      rw [Table.get?_erase_self] at h
      cases h
    have h : ((c.sweepIfDue t).entries.erase k₀).get? k = some e := h
    rw [Table.get?_erase_of_ne _ hk] at h
    exact .inr ⟨hk, get?_of_sweepIfDue h⟩
  · rw [hr] at h ⊢
    rcases get?_of_touch (c := c.sweepIfDue t) h with ⟨hk, hlast⟩ | ⟨hk, hheld⟩
    · exact .inl ⟨hk, ⟨e₀.predicate, rfl⟩, hlast⟩
    · exact .inr ⟨hk, get?_of_sweepIfDue hheld⟩

/-- After a request, an entry was used by it, or was held before it and is left alone. -/
theorem get?_of_perform {r : Request ε} (h : (c.perform t r).2.entries.get? k = some e) :
    (c.exchange t r).Uses k ∧ e.lastUse = t ∨
      ¬ (c.exchange t r).Uses k ∧ r ≠ .clear ∧ c.entries.get? k = some e := by
  cases r with
  | get k₀ =>
    rcases get?_of_get h with ⟨rfl, ⟨p, hp⟩, hlast⟩ | ⟨hk, hheld⟩
    · refine .inl ⟨?_, hlast⟩
      simp only [exchange, perform, Exchange.Uses, hp]
    · refine .inr ⟨?_, by simp, hheld⟩
      simp only [exchange, perform, Exchange.Uses]
      cases (c.get t k₀).1 with
      | none => exact id
      | some p => exact fun heq => hk heq.symm
  | insert k₀ p =>
    rcases get?_of_touch (c := c) h with ⟨rfl, hlast⟩ | ⟨hk, hheld⟩
    · exact .inl ⟨rfl, hlast⟩
    · exact .inr ⟨fun heq => hk heq.symm, by simp, hheld⟩
  | getOrInsert k₀ result =>
    have hanswer := (get_spec c t k₀).1
    simp only [exchange, Exchange.Uses]
    rw [perform_getOrInsert] at h ⊢
    cases hl : c.live t k₀ with
    | some e₀ =>
      rw [hl] at h
      rcases get?_of_get h with ⟨rfl, -, hlast⟩ | ⟨hk, hheld⟩
      · exact .inl ⟨rfl, hlast⟩
      · exact .inr ⟨fun heq => hk heq.symm, by simp, hheld⟩
    | none =>
      rw [hl] at h hanswer
      -- the lookup has found nothing, so it leaves only entries of other keys
      have hmissed : (c.get t k₀).2.entries.get? k = some e →
          k ≠ k₀ ∧ c.entries.get? k = some e := by
        intro hg
        rcases get?_of_get hg with ⟨-, ⟨p, hp⟩, -⟩ | hother
        · rw [hanswer] at hp
          cases hp
        · exact hother
      cases result with
      | error err =>
        obtain ⟨-, hheld⟩ := hmissed h
        exact .inr ⟨id, by simp, hheld⟩
      | ok p =>
        rcases get?_of_touch (c := (c.get t k₀).2) h with ⟨rfl, hlast⟩ | ⟨hk, hg⟩
        · exact .inl ⟨rfl, hlast⟩
        · exact .inr ⟨fun heq => hk heq.symm, by simp, (hmissed hg).2⟩
  | sweep => exact .inr ⟨id, by simp, (Table.get?_filter.1 h).1⟩
  | clear => cases h

/-- What is held was used last when its entry says. -/
def Recorded (c : PredicateCache) (log : List (Exchange ε)) : Prop :=
  ∀ k e, c.entries.get? k = some e → ∃ u, LastUse k log u ∧ u.time = e.lastUse

theorem Recorded.perform (h : Recorded c log) (t : Nat) (r : Request ε) :
    Recorded (c.perform t r).2 (log ++ [c.exchange t r]) := by
  intro k e he
  simp only [LastUse, latest_snoc_iff]
  rcases get?_of_perform he with ⟨huse, hlast⟩ | ⟨huse, hclear, hheld⟩
  · exact ⟨_, .inl ⟨huse, rfl⟩, hlast.symm⟩
  · obtain ⟨u, hu, htime⟩ := h k e hheld
    exact ⟨u, .inr ⟨huse, hclear, hu⟩, htime⟩

theorem recorded_run (ttl sweepInterval : Nat) (calls : List (Call ε)) :
    Recorded ((unused ttl sweepInterval).run calls).2 ((unused ttl sweepInterval).run calls).1 := by
  induction calls using List.reverseRecOn with
  | nil =>
    intro k e he
    cases he
  | append_singleton calls call ih =>
    rw [run_snoc]
    exact ih.perform call.time call.request

/-! ## Inserting -/

/-- What an insertion serves: what is held under its key, expired or not, and else what is
inserted. -/
theorem insert_fst (c : PredicateCache) (t : Nat) (k : PredicateKey) (p : Predicate) :
    (c.insert t k p).1 = ((c.entries.get? k).map CacheEntry.predicate).getD p := by
  unfold insert
  cases c.entries.get? k <;> rfl

/-- After a sweep, an insertion serves what is live. -/
theorem insert_sweep (c : PredicateCache) (t : Nat) (k : PredicateKey) (p : Predicate) :
    ((c.sweep t).2.insert t k p).1 = ((c.live t k).map CacheEntry.predicate).getD p := by
  have hlive : (c.sweep t).2.entries.get? k = c.live t k := by
    ext e
    rw [live_eq_some_iff, ← Bool.not_eq_true']
    exact Table.get?_filter
  rw [insert_fst, hlive]

/-! ## Serving -/

/-- A lookup serves what was used within the time to live, or what it computes. -/
theorem answer_of_tracks {r : Request ε} (h : Tracks c t log) (hr : r.LooksUp k) :
    (∃ p u, (c.perform t r).1 = r.hitBy p ∧ LastUse k log u ∧ t - u.time ≤ c.ttl) ∨
      (c.perform t r).1 = r.missed := by
  rw [answer_of_looksUp hr]
  cases hl : c.live t k with
  | none => exact .inr rfl
  | some e =>
    obtain ⟨u, hu, htime, hle⟩ := (h k e.lastUse).1 ⟨e.predicate, hl⟩
    exact .inl ⟨e.predicate, u, rfl, hu, htime ▸ hle⟩

/-- **Only an insertion serves an expired predicate.** A lookup serves what was used within the time
to live, or computes anew. An insertion serves what is held under its key, used whenever it was, and
stores the new predicate only if nothing is held; after a sweep at its time it serves what is not
expired. -/
theorem served_unless_idle (ttl sweepInterval : Nat) (calls : List (Call ε))
    (hclock : InOrder calls) (t : Nat) (ht : ∀ call ∈ calls, call.time ≤ t) (k : PredicateKey) :
    let log := ((unused ttl sweepInterval).run calls).1
    let c := ((unused ttl sweepInterval).run calls).2
    (∀ r : Request ε, r.LooksUp k →
      (∃ p u, (c.perform t r).1 = r.hitBy p ∧ LastUse k log u ∧ t - u.time ≤ ttl) ∨
        (c.perform t r).1 = r.missed) ∧
    (∀ p, (c.perform t (.insert k p : Request ε)).1 =
      .held (((c.entries.get? k).map CacheEntry.predicate).getD p)) ∧
    (∀ e, c.entries.get? k = some e → ∃ u, LastUse k log u ∧ u.time = e.lastUse) ∧
    ∀ p, ((c.sweep t).2.perform t (.insert k p : Request ε)).1 =
      .held (((c.live t k).map CacheEntry.predicate).getD p) := by
  intro log c
  have htracks : Tracks c t log := tracks_run ttl sweepInterval hclock ht
  have httl : c.ttl = ttl := ttl_run _ calls
  refine ⟨fun r hr => ?_, fun p => ?_, recorded_run ttl sweepInterval calls k, fun p => ?_⟩
  · rw [← httl]
    exact answer_of_tracks htracks hr
  · exact congrArg Answer.held (insert_fst c t k p)
  · exact congrArg Answer.held (insert_sweep c t k p)

/-- A predicate idle for three times its time to live: looked up it is missing, but an insertion
still serves it. -/
theorem served_unless_idle_insert :
    let k : PredicateKey := ⟨"User", "f", .asIs⟩
    let calls : List (Call Unit) := [⟨0, .insert k (.const true)⟩]
    let c := ((unused 20 300000).run calls).2
    InOrder calls ∧ (∀ call ∈ calls, call.time ≤ 60) ∧
      (c.perform 60 (.get k : Request Unit)).1 = .found none ∧
      (c.perform 60 (.insert k (.const false) : Request Unit)).1 = .held (.const true) := by
  intro k calls c
  have hclock : InOrder calls := by simp [InOrder, calls]
  have htime : ∀ call ∈ calls, call.time ≤ 60 := by simp [calls]
  obtain ⟨-, hinsert, -⟩ := served_unless_idle 20 300000 calls hclock 60 htime k
  exact ⟨hclock, htime, rfl, hinsert (.const false)⟩

/-- **An expired predicate is served**, and a sweep before that shows: inserting under a key whose
entry is expired answers the old predicate, and the new one if a sweep has come between. -/
theorem insert_serves_expired :
    let k : PredicateKey := ⟨"User", "f", .asIs⟩
    let first : Call Unit := ⟨0, .insert k (.const true)⟩
    let second : Call Unit := ⟨60, .insert k (.const false)⟩
    InOrder [first, second] ∧ 20 < second.time - first.time ∧
      ((unused 20 300000).run [first, second]).1.map (·.answer) =
        [.held (.const true), .held (.const true)] ∧
      ((unused 20 300000).run [first, ⟨60, .sweep⟩, second]).1.map (·.answer) =
        [.held (.const true), .swept 1, .held (.const false)] := by
  intro k first second
  have hclock : InOrder [first, second] := by simp [InOrder, first, second]
  exact ⟨hclock, by decide, rfl, rfl⟩

end RecordFilter.PredicateCache

import Mathlib.Data.List.Induction
import RecordFilter.Proofs.Cache.Traffic

/-!
# Which lookups are hits

The cache serves what was used last within the time to live (`hit_law`). This is said of
the log of a run alone, so it does not matter when sweeps come and how many entries they find.

## Mechanism

`Tracks` ties what is live in the cache to the last use of each key in the log. One step keeps it,
whatever the request is (`Tracks.perform`), as a step either uses the key, or clears the cache, or
leaves what is live under the key alone. What a hit serves is followed the same way (`Serves`), but
only as long as nothing is inserted except after a miss: an insertion may find an expired entry.
-/

namespace RecordFilter.PredicateCache

variable {ε : Type} {c : PredicateCache} {k : PredicateKey} {p q : Predicate} {t t' s : Nat}

/-! ## The last of several -/

section Latest

variable {α : Type} {P Q : α → Prop} {l : List α} {a u : α}

/-- The last element of a list with the property `P`; behind it there is none with `Q` either. -/
def Latest (P Q : α → Prop) (l : List α) (u : α) : Prop :=
  ∃ before after, l = before ++ u :: after ∧ P u ∧ ∀ a ∈ after, ¬ P a ∧ ¬ Q a

theorem not_latest_nil : ¬ Latest P Q [] u := by
  rintro ⟨before, after, h, -⟩
  simp at h

theorem latest_snoc_iff :
    Latest P Q (l ++ [a]) u ↔ P a ∧ u = a ∨ ¬ P a ∧ ¬ Q a ∧ Latest P Q l u := by
  constructor
  · rintro ⟨before, after, h, hu, hafter⟩
    rcases List.eq_nil_or_concat after with rfl | ⟨after, b, rfl⟩
    · obtain ⟨-, hb⟩ := List.append_inj' h rfl
      obtain rfl := (List.cons.inj hb).1
      exact .inl ⟨hu, rfl⟩
    · rw [List.concat_eq_append, ← List.cons_append, ← List.append_assoc] at h
      obtain ⟨rfl, hb⟩ := List.append_inj' h rfl
      obtain rfl := (List.cons.inj hb).1
      have hlast := hafter a (by simp)
      have hbefore : ∀ b ∈ after, ¬ P b ∧ ¬ Q b := fun b hb => hafter b (by simp [hb])
      exact .inr ⟨hlast.1, hlast.2, before, after, rfl, hu, hbefore⟩
  · rintro (⟨ha, rfl⟩ | ⟨hP, hQ, before, after, rfl, hu, hafter⟩)
    · exact ⟨l, [], rfl, ha, by simp⟩
    · refine ⟨before, after ++ [a], by simp, hu, ?_⟩
      intro b hb
      rcases List.mem_append.1 hb with hb | hb
      · exact hafter b hb
      · obtain rfl := List.mem_singleton.1 hb
        exact ⟨hP, hQ⟩

end Latest

/-! ## Uses -/

/-- The request looks up a key. -/
def Request.LooksUp (k : PredicateKey) (r : Request ε) : Prop :=
  r = .get k ∨ ∃ result, r = .getOrInsert k result

/-- The request inserts a predicate without looking it up. -/
def Request.isInsert : Request ε → Bool
  | .insert _ _ => true
  | _ => false

/-- The request orders a sweep. -/
def Request.isSweep : Request ε → Bool
  | .sweep => true
  | _ => false

/-- The answer to a lookup that is a hit. -/
def Request.hitBy (p : Predicate) : Request ε → Answer ε
  | .getOrInsert _ _ => .computed (.ok p) 0
  | _ => .found (some p)

/-- The answer to a lookup that is a miss: a computation is run once. -/
def Request.missed : Request ε → Answer ε
  | .getOrInsert _ result => .computed result 1
  | _ => .found none

/-- The exchange ends with a predicate under a key: found, inserted or computed. -/
def Exchange.Uses (k : PredicateKey) (x : Exchange ε) : Prop :=
  match x.request, x.answer with
  | .get k', .found (some _) => k' = k
  | .insert k' _, .held _ => k' = k
  | .getOrInsert k' _, .computed (.ok _) _ => k' = k
  | _, _ => False

/-- The exchange runs a computation for a key, and it gives a predicate. -/
def Exchange.Computes (k : PredicateKey) (p : Predicate) (x : Exchange ε) : Prop :=
  x.request = .getOrInsert k (.ok p) ∧ x.answer = .computed (.ok p) 1

/-- The last use of a key, behind which the cache is not cleared. -/
def LastUse (k : PredicateKey) (log : List (Exchange ε)) (u : Exchange ε) : Prop :=
  Latest (Exchange.Uses k) (·.request = .clear) log u

/-- The predicate that was computed last for a key. -/
def LastComputed (k : PredicateKey) (log : List (Exchange ε)) (p : Predicate) : Prop :=
  ∃ u, Latest (fun x => ∃ q, x.Computes k q) (fun _ => False) log u ∧ u.Computes k p

/-! ## One step -/

/-- **What a step does to what is live under a key.** It uses the key, or clears the cache, or
leaves the key alone. -/
theorem perform_cases (c : PredicateCache) (t : Nat) (r : Request ε) (k : PredicateKey) :
    ((c.exchange t r).Uses k ∧ ∃ p, (c.perform t r).2.live t k = some ⟨p, t⟩) ∨
    (¬ (c.exchange t r).Uses k ∧ r = .clear ∧ (c.perform t r).2.live t k = none) ∨
    (¬ (c.exchange t r).Uses k ∧ r ≠ .clear ∧ (c.perform t r).2.live t k = c.live t k) := by
  cases r with
  | get k₀ =>
    have hlive := (get_spec c t k₀).2 k
    simp only [exchange, perform_get, Exchange.Uses]
    rw [hlive]
    by_cases hk : k = k₀
    · subst hk
      cases c.live t k with
      | none => exact .inr (.inr ⟨nofun, nofun, by simp⟩)
      | some e => exact .inl ⟨rfl, e.predicate, by simp⟩
    · rw [if_neg hk]
      refine .inr (.inr ⟨?_, nofun, rfl⟩)
      cases c.live t k₀ with
      | none => nofun
      | some e => exact fun h => hk h.symm
  | insert k₀ p =>
    by_cases hk : k = k₀
    · subst hk
      exact .inl ⟨rfl, _, live_touch_self⟩
    · exact .inr (.inr ⟨fun h => hk h.symm, nofun, live_touch_of_ne hk⟩)
  | getOrInsert k₀ result =>
    have hlive := (get_spec c t k₀).2 k
    simp only [exchange, perform_getOrInsert, Exchange.Uses]
    cases hl : c.live t k₀ with
    | some e =>
      simp only
      rw [hlive, hl]
      by_cases hk : k = k₀
      · subst hk
        exact .inl ⟨rfl, e.predicate, by simp⟩
      · exact .inr (.inr ⟨fun h => hk h.symm, nofun, if_neg hk⟩)
    | none =>
      rw [hl] at hlive
      cases result with
      | ok p =>
        by_cases hk : k = k₀
        · subst hk
          exact .inl ⟨rfl, p, live_touch_self⟩
        · refine .inr (.inr ⟨fun h => hk h.symm, nofun, ?_⟩)
          rw [live_touch_of_ne hk, hlive, if_neg hk]
      | error err =>
        refine .inr (.inr ⟨nofun, nofun, ?_⟩)
        rw [hlive]
        split
        · next hk =>
          rw [hk, hl]
          rfl
        · rfl
  | sweep => exact .inr (.inr ⟨nofun, nofun, live_sweep (Nat.le_refl t)⟩)
  | clear => exact .inr (.inl ⟨nofun, rfl, rfl⟩)

/-- **A lookup answers by what is live under its key.** -/
theorem answer_of_looksUp {r : Request ε} (h : r.LooksUp k) :
    (c.perform t r).1 = match c.live t k with
      | some e => r.hitBy e.predicate
      | none => r.missed := by
  rcases h with rfl | ⟨result, rfl⟩
  · rw [perform_get]
    cases c.live t k <;> rfl
  · rw [perform_getOrInsert]
    cases c.live t k with
    | some e => rfl
    | none => cases result <;> rfl

/-- What is live under a key after a step without an insertion of its own was computed by the step,
or it was live before and the step computes nothing for the key. -/
theorem predicate_of_perform {r : Request ε} (hr : r.isInsert = false) {e : CacheEntry}
    (h : (c.perform t r).2.live t k = some e) :
    (c.exchange t r).Computes k e.predicate ∨
      (∀ q, ¬ (c.exchange t r).Computes k q) ∧
        ∃ before, c.live t k = some before ∧ before.predicate = e.predicate := by
  -- after a lookup: the entry under its key is used, the others stay
  have hget : ∀ k₀, (c.get t k₀).2.live t k = some e →
      ∃ before, c.live t k = some before ∧ before.predicate = e.predicate := by
    intro k₀ h
    rw [(get_spec c t k₀).2 k] at h
    split at h
    · next hk =>
      obtain ⟨before, hbefore, rfl⟩ := Option.map_eq_some_iff.1 h
      exact ⟨before, hk ▸ hbefore, rfl⟩
    · exact ⟨e, h, rfl⟩
  cases r with
  | get k₀ =>
    rw [perform_get] at h
    exact .inr ⟨(fun q hq => nomatch hq.1), hget k₀ h⟩
  | insert k₀ p => cases hr
  | getOrInsert k₀ result =>
    rw [perform_getOrInsert] at h
    simp only [exchange, perform_getOrInsert, Exchange.Computes]
    cases hl : c.live t k₀ with
    | some e₀ =>
      rw [hl] at h
      exact .inr ⟨fun q hq => by simp at hq, hget k₀ h⟩
    | none =>
      rw [hl] at h
      cases result with
      | error err => exact .inr ⟨fun q hq => by simp at hq, hget k₀ h⟩
      | ok p =>
        by_cases hk : k = k₀
        · subst hk
          simp only [live_touch_self, Option.some.injEq] at h
          subst h
          exact .inl ⟨rfl, rfl⟩
        · rw [live_touch_of_ne hk] at h
          refine .inr ⟨fun q hq => ?_, hget k₀ h⟩
          simp only [Request.getOrInsert.injEq] at hq
          exact hk hq.1.1.symm
  | sweep =>
    have h : (c.sweep t).2.live t k = some e := h
    rw [live_sweep (Nat.le_refl t)] at h
    exact .inr ⟨(fun q hq => nomatch hq.1), e, h, rfl⟩
  | clear => cases h

/-! ## Runs -/

/-- What is live at a time under each key is what was used last in the log, unless that is longer
ago than the time to live. -/
def Tracks (c : PredicateCache) (t : Nat) (log : List (Exchange ε)) : Prop :=
  ∀ k s, (∃ p, c.live t k = some ⟨p, s⟩) ↔ ∃ u, LastUse k log u ∧ u.time = s ∧ t - s ≤ c.ttl

/-- What is live at a time under each key was computed last for it. -/
def Serves (c : PredicateCache) (t : Nat) (log : List (Exchange ε)) : Prop :=
  ∀ k e, c.live t k = some e → LastComputed k log e.predicate

variable {log : List (Exchange ε)} {calls : List (Call ε)} {ttl sweepInterval : Nat}

theorem tracks_unused : Tracks (unused ttl sweepInterval) t ([] : List (Exchange ε)) := by
  intro k s
  constructor
  · rintro ⟨p, hp⟩
    cases hp
  · rintro ⟨u, hu, -⟩
    exact absurd hu not_latest_nil

theorem serves_unused : Serves (unused ttl sweepInterval) t ([] : List (Exchange ε)) := by
  intro k e he
  cases he

theorem Tracks.of_le (h : Tracks c t log) (ht : t ≤ t') : Tracks c t' log := by
  intro k s
  have hlater : (∃ p, c.live t' k = some ⟨p, s⟩) ↔
      (∃ p, c.live t k = some ⟨p, s⟩) ∧ t' - s ≤ c.ttl := by
    rw [live_of_le ht]
    simp only [Option.filter_eq_some_iff, Bool.not_eq_true', CacheEntry.expired_eq_false_iff]
    constructor
    · rintro ⟨p, hp, hs⟩
      exact ⟨⟨p, hp⟩, hs⟩
    · rintro ⟨⟨p, hp⟩, hs⟩
      exact ⟨p, hp, hs⟩
  rw [hlater, h k s]
  constructor
  · rintro ⟨⟨u, hu, hs, -⟩, hle⟩
    exact ⟨u, hu, hs, hle⟩
  · rintro ⟨u, hu, hs, hle⟩
    exact ⟨⟨u, hu, hs, by omega⟩, hle⟩

theorem Serves.of_le (h : Serves c t log) (ht : t ≤ t') : Serves c t' log := by
  intro k e he
  rw [live_of_le ht, Option.filter_eq_some_iff] at he
  exact h k e he.1

/-- One step keeps the cache in line with the log. -/
theorem Tracks.perform (h : Tracks c t log) (r : Request ε) :
    Tracks (c.perform t r).2 t (log ++ [c.exchange t r]) := by
  intro k s
  simp only [LastUse, latest_snoc_iff, ttl_perform]
  rcases perform_cases c t r k with ⟨huse, p, hp⟩ | ⟨huse, rfl, hnone⟩ | ⟨huse, hclear, hsame⟩
  · rw [hp]
    constructor
    · rintro ⟨p', hp'⟩
      cases hp'
      exact ⟨_, .inl ⟨huse, rfl⟩, rfl, by omega⟩
    · rintro ⟨u, ⟨-, rfl⟩ | ⟨hnot, -⟩, rfl, -⟩
      · exact ⟨p, rfl⟩
      · exact absurd huse hnot
  · rw [hnone]
    constructor
    · rintro ⟨p, hp⟩
      cases hp
    · rintro ⟨u, ⟨hu, -⟩ | ⟨-, hclear, -⟩, -⟩
      · exact absurd hu huse
      · exact absurd rfl hclear
  · rw [hsame, h k s]
    constructor
    · rintro ⟨u, hu, hs⟩
      exact ⟨u, .inr ⟨huse, hclear, hu⟩, hs⟩
    · rintro ⟨u, ⟨hu, -⟩ | ⟨-, -, hu⟩, hs⟩
      · exact absurd hu huse
      · exact ⟨u, hu, hs⟩

theorem Serves.perform (h : Serves c t log) {r : Request ε} (hr : r.isInsert = false) :
    Serves (c.perform t r).2 t (log ++ [c.exchange t r]) := by
  intro k e he
  simp only [LastComputed, latest_snoc_iff]
  rcases predicate_of_perform hr he with hcomputes | ⟨hnot, before, hbefore, heq⟩
  · exact ⟨_, .inl ⟨⟨_, hcomputes⟩, rfl⟩, hcomputes⟩
  · obtain ⟨u, hu, hcomputes⟩ := h k before hbefore
    rw [heq] at hcomputes
    exact ⟨u, .inr ⟨fun ⟨q, hq⟩ => hnot q hq, not_false, hu⟩, hcomputes⟩

theorem inOrder_snoc {call : Call ε} :
    InOrder (calls ++ [call]) ↔ InOrder calls ∧ ∀ earlier ∈ calls, earlier.time ≤ call.time := by
  simp [InOrder, List.pairwise_append]

theorem run_snoc (c : PredicateCache) (calls : List (Call ε)) (call : Call ε) :
    c.run (calls ++ [call]) =
      ((c.run calls).1 ++ [(c.run calls).2.exchange call.time call.request],
        ((c.run calls).2.perform call.time call.request).2) := by
  rw [run_append]
  rfl

/-- **A run keeps the cache in line with the log.** -/
theorem tracks_run (ttl sweepInterval : Nat) (hclock : InOrder calls)
    (ht : ∀ call ∈ calls, call.time ≤ t) :
    Tracks ((unused ttl sweepInterval).run calls).2 t ((unused ttl sweepInterval).run calls).1 := by
  induction calls using List.reverseRecOn generalizing t with
  | nil => exact tracks_unused
  | append_singleton calls call ih =>
    obtain ⟨hcalls, hlast⟩ := inOrder_snoc.1 hclock
    rw [run_snoc]
    exact ((ih hcalls hlast).perform call.request).of_le (ht call (by simp))

theorem serves_run (ttl sweepInterval : Nat) (hclock : InOrder calls)
    (ht : ∀ call ∈ calls, call.time ≤ t) (hinsert : ∀ call ∈ calls, call.request.isInsert = false) :
    Serves ((unused ttl sweepInterval).run calls).2 t ((unused ttl sweepInterval).run calls).1 := by
  induction calls using List.reverseRecOn generalizing t with
  | nil => exact serves_unused
  | append_singleton calls call ih =>
    obtain ⟨hcalls, hlast⟩ := inOrder_snoc.1 hclock
    have hbefore := ih hcalls hlast fun call h => hinsert call (by simp [h])
    rw [run_snoc]
    exact (hbefore.perform (hinsert call (by simp))).of_le (ht call (by simp))

/-! ## Logs -/

/-- An exchange of a run is a call, answered by the cache that the calls before it leave. -/
theorem exists_calls_of_log (c : PredicateCache) {calls : List (Call ε)}
    {past future : List (Exchange ε)} {x : Exchange ε}
    (h : (c.run calls).1 = past ++ x :: future) :
    ∃ before after, calls = before ++ x.toCall :: after ∧ (c.run before).1 = past ∧
      x = (c.run before).2.exchange x.time x.request := by
  induction past generalizing c calls with
  | nil =>
    cases calls with
    | nil => cases h
    | cons call calls =>
      obtain ⟨rfl, -⟩ := List.cons.inj h
      exact ⟨[], calls, rfl, rfl, rfl⟩
  | cons first past ih =>
    cases calls with
    | nil => cases h
    | cons call calls =>
      obtain ⟨hfirst, hrest⟩ := List.cons.inj h
      obtain ⟨before, after, rfl, hpast, hx⟩ := ih _ hrest
      refine ⟨call :: before, after, rfl, ?_, hx⟩
      rw [← hfirst, ← hpast]
      rfl

/-! ## Sweeps do not show -/

/-- Two caches that would serve the same from a time on, and have counted the same. -/
structure Alike (t : Nat) (c d : PredicateCache) : Prop where
  ttl_eq : c.ttl = d.ttl
  hits_eq : c.hits = d.hits
  misses_eq : c.misses = d.misses
  live_eq : ∀ k, c.live t k = d.live t k

variable {d : PredicateCache}

theorem Alike.of_le (h : Alike t c d) (ht : t ≤ t') : Alike t' c d := by
  refine ⟨h.ttl_eq, h.hits_eq, h.misses_eq, fun k => ?_⟩
  rw [live_of_le ht, live_of_le ht, h.live_eq, h.ttl_eq]

theorem Alike.sweep (h : Alike t c d) : Alike t (c.sweep t).2 d :=
  ⟨h.ttl_eq, h.hits_eq, h.misses_eq, fun k => (live_sweep (Nat.le_refl t)).trans (h.live_eq k)⟩

theorem live_get_congr (h : ∀ k, c.live t k = d.live t k) (k k' : PredicateKey) :
    (c.get t k).2.live t k' = (d.get t k).2.live t k' := by
  rw [(get_spec c t k).2, (get_spec d t k).2, h, h]

theorem live_touch_congr (h : ∀ k, c.live t k = d.live t k) (k k' : PredicateKey) (p : Predicate) :
    (c.touch t k p).live t k' = (d.touch t k p).live t k' := by
  by_cases hk : k' = k
  · subst hk
    rw [live_touch_self, live_touch_self]
  · rw [live_touch_of_ne hk, live_touch_of_ne hk, h]

/-- Caches that would serve the same answer the same, and go on so. -/
theorem Alike.perform (h : Alike t c d) {r : Request ε} (hinsert : r.isInsert = false)
    (hsweep : r.isSweep = false) :
    (c.perform t r).1 = (d.perform t r).1 ∧ Alike t (c.perform t r).2 (d.perform t r).2 := by
  have hget := live_get_congr h.live_eq
  have hall : (c.perform t r).1 = (d.perform t r).1 ∧
      ∀ k, (c.perform t r).2.live t k = (d.perform t r).2.live t k := by
    cases r with
    | get k =>
      rw [perform_get, perform_get, h.live_eq]
      exact ⟨rfl, hget k⟩
    | insert k p => cases hinsert
    | getOrInsert k result =>
      rw [perform_getOrInsert, perform_getOrInsert, h.live_eq]
      cases d.live t k with
      | some e => exact ⟨rfl, hget k⟩
      | none =>
        cases result with
        | ok p => exact ⟨rfl, fun k' => live_touch_congr (hget k) k k' p⟩
        | error e => exact ⟨rfl, hget k⟩
    | sweep => cases hsweep
    | clear => exact ⟨rfl, fun _ => rfl⟩
  obtain ⟨hanswer, hlive⟩ := hall
  obtain ⟨hhits, hmisses⟩ := counts_perform c t r
  obtain ⟨hhits', hmisses'⟩ := counts_perform d t r
  refine ⟨hanswer, ?_, ?_, ?_, hlive⟩
  · rw [ttl_perform, ttl_perform, h.ttl_eq]
  · rw [hhits, hhits', hanswer, h.hits_eq]
  · rw [hmisses, hmisses', hanswer, h.misses_eq]

/-- The calls that are no sweeps. -/
def withoutSweeps (calls : List (Call ε)) : List (Call ε) :=
  calls.filter fun call => !call.request.isSweep

/-- The exchanges that are no sweeps. -/
def answersWithoutSweeps (log : List (Exchange ε)) : List (Exchange ε) :=
  log.filter fun x => !x.request.isSweep

/-- **Sweeps can be left out of a run**, those that are ordered and those that come by themselves:
another cache with the same time to live answers everything else the same. -/
theorem Alike.run (h : Alike t c d) (hclock : InOrder calls) (ht : ∀ call ∈ calls, t ≤ call.time)
    (hinsert : ∀ call ∈ calls, call.request.isInsert = false) :
    answersWithoutSweeps (c.run calls).1 = (d.run (withoutSweeps calls)).1 ∧
      ∃ t', Alike t' (c.run calls).2 (d.run (withoutSweeps calls)).2 := by
  induction calls generalizing c d t with
  | nil => exact ⟨rfl, t, h⟩
  | cons call calls ih =>
    obtain ⟨hfirst, hrest⟩ := List.pairwise_cons.1 hclock
    have hinsert' : ∀ call ∈ calls, call.request.isInsert = false :=
      fun c hc => hinsert c (List.mem_cons_of_mem _ hc)
    have hnow : Alike call.time c d := h.of_le (ht call List.mem_cons_self)
    cases hsweep : call.request.isSweep with
    | true =>
      have hr : call.request = .sweep := by
        cases hr : call.request <;> rw [hr] at hsweep <;> first | rfl | cases hsweep
      have hswept : (c.perform call.time call.request).2 = (c.sweep call.time).2 := by
        rw [hr]
        rfl
      obtain ⟨hlog, hend⟩ := ih (hswept ▸ hnow.sweep) hrest hfirst hinsert'
      rw [run_cons, withoutSweeps, List.filter_cons, hsweep, answersWithoutSweeps, List.filter_cons]
      simp only [exchange, hsweep]
      exact ⟨hlog, hend⟩
    | false =>
      obtain ⟨hanswer, hafter⟩ := hnow.perform (hinsert call List.mem_cons_self) hsweep
      obtain ⟨hlog, hend⟩ := ih hafter hrest hfirst hinsert'
      have hsame : c.exchange call.time call.request = d.exchange call.time call.request := by
        rw [exchange, exchange, hanswer]
      have hcalls : withoutSweeps (call :: calls) = call :: withoutSweeps calls := by
        rw [withoutSweeps, List.filter_cons, hsweep]
        rfl
      rw [hcalls, run_cons, run_cons, answersWithoutSweeps, List.filter_cons, ← hsame]
      simp only [exchange, hsweep]
      exact ⟨congrArg (_ :: ·) hlog, hend⟩

/-! ## The law -/

theorem isHit_hitBy {r : Request ε} : (r.hitBy p).isHit = true := by
  cases r <;> rfl

theorem isHit_missed {r : Request ε} : r.missed.isHit = false := by
  cases r <;> rfl

/-- The calls before an exchange of a run, and the cache that answered it. -/
theorem exists_cache_of_log {x : Exchange ε} {past future : List (Exchange ε)}
    (hclock : InOrder calls)
    (h : ((unused ttl sweepInterval).run calls).1 = past ++ x :: future) :
    ∃ before ⊆ calls, InOrder before ∧ (∀ call ∈ before, call.time ≤ x.time) ∧
      let answering := (unused ttl sweepInterval).run before
      answering.1 = past ∧ answering.2.ttl = ttl ∧
        x.answer = (answering.2.perform x.time x.request).1 := by
  obtain ⟨before, after, rfl, hpast, hx⟩ := exists_calls_of_log _ h
  obtain ⟨hbefore, -, hnow⟩ := List.pairwise_append.1 hclock
  refine ⟨before, List.subset_append_left _ _, hbefore, ?_, hpast, ?_, congrArg (·.answer) hx⟩
  · exact fun call hcall => hnow call hcall _ List.mem_cons_self
  · rw [ttl_run]
    rfl

/-- **A lookup is a hit exactly if its key was used within the time to live and the cache has not
been cleared since.** Insertions may be among the calls. -/
theorem isHit_iff {x : Exchange ε} {past future : List (Exchange ε)} (hclock : InOrder calls)
    (h : ((unused ttl sweepInterval).run calls).1 = past ++ x :: future)
    (hx : x.request.LooksUp k) :
    x.answer.isHit = true ↔ ∃ u, LastUse k past u ∧ x.time - u.time ≤ ttl := by
  obtain ⟨before, -, hbefore, hnow, rfl, httl, hanswer⟩ := exists_cache_of_log hclock h
  have htracks := tracks_run ttl sweepInterval hbefore hnow
  generalize (unused ttl sweepInterval).run before = answering at htracks httl hanswer ⊢
  have hlive : (∃ e, answering.2.live x.time k = some e) ↔
      ∃ u, LastUse k answering.1 u ∧ x.time - u.time ≤ ttl := by
    rw [← httl]
    constructor
    · rintro ⟨e, he⟩
      obtain ⟨u, hu, hs, hle⟩ := (htracks k e.lastUse).1 ⟨e.predicate, he⟩
      exact ⟨u, hu, hs ▸ hle⟩
    · rintro ⟨u, hu, hle⟩
      obtain ⟨p, hp⟩ := (htracks k u.time).2 ⟨u, hu, rfl, hle⟩
      exact ⟨_, hp⟩
  rw [← hlive, hanswer, answer_of_looksUp hx]
  cases answering.2.live x.time k with
  | some e => simp [isHit_hitBy]
  | none => simp [isHit_missed]

/-- A hit serves the predicate that was computed last for the key. -/
theorem answer_of_isHit {x : Exchange ε} {past future : List (Exchange ε)} (hclock : InOrder calls)
    (hinsert : ∀ call ∈ calls, call.request.isInsert = false)
    (h : ((unused ttl sweepInterval).run calls).1 = past ++ x :: future)
    (hx : x.request.LooksUp k) (hhit : x.answer.isHit = true) :
    ∃ p, LastComputed k past p ∧ x.answer = x.request.hitBy p := by
  obtain ⟨before, hsub, hbefore, hnow, rfl, -, hanswer⟩ := exists_cache_of_log hclock h
  have hserves := serves_run ttl sweepInterval hbefore hnow
    fun call hcall => hinsert call (hsub hcall)
  rw [answer_of_looksUp hx] at hanswer
  cases hl : ((unused ttl sweepInterval).run before).2.live x.time k with
  | some e =>
    rw [hl] at hanswer
    exact ⟨e.predicate, hserves k e hl, hanswer⟩
  | none =>
    rw [hl] at hanswer
    rw [hanswer, isHit_missed] at hhit
    cases hhit

/-- A miss finds nothing, or runs the computation once. -/
theorem answer_of_miss {x : Exchange ε} {past future : List (Exchange ε)} (hclock : InOrder calls)
    (h : ((unused ttl sweepInterval).run calls).1 = past ++ x :: future)
    (hx : x.request.LooksUp k) (hmiss : x.answer.isHit = false) : x.answer = x.request.missed := by
  obtain ⟨before, -, -, -, -, -, hanswer⟩ := exists_cache_of_log hclock h
  rw [answer_of_looksUp hx] at hanswer
  cases hl : ((unused ttl sweepInterval).run before).2.live x.time k with
  | some e =>
    rw [hl] at hanswer
    rw [hanswer, isHit_hitBy] at hmiss
    cases hmiss
  | none =>
    rw [hl] at hanswer
    exact hanswer

/-- A computation that fails puts nothing into the cache: what is there afterwards was there. -/
theorem held_of_failure {e : CacheEntry} {err : ε} {k' : PredicateKey}
    (h : (c.perform t (.getOrInsert k (.error err))).2.entries.get? k' = some e) :
    ∃ before, c.entries.get? k' = some before ∧ before.predicate = e.predicate := by
  have hall : c.All fun k p => ∃ before, c.entries.get? k = some before ∧ before.predicate = p :=
    fun k e he => ⟨e, he, rfl⟩
  have hget := (hall.get t k).1
  rw [perform_getOrInsert] at h
  split at h
  · exact hget k' e h
  · contradiction
  · exact hget k' e h

theorem isInsert_of_withoutSweeps {more : List (Call ε)}
    (hinsert : ∀ call ∈ calls, call.request.isInsert = false)
    (h : withoutSweeps more = withoutSweeps calls) :
    ∀ call ∈ more, call.request.isInsert = false := by
  intro call hcall
  cases hsweep : call.request.isSweep with
  | true =>
    cases hr : call.request with
    | sweep => rfl
    | _ =>
      rw [hr] at hsweep
      cases hsweep
  | false =>
    have hmem : call ∈ withoutSweeps calls := by
      rw [← h]
      exact List.mem_filter.2 ⟨hcall, by rw [hsweep]; rfl⟩
    exact hinsert call (List.mem_filter.1 hmem).1

/-- **Which lookups are hits, and what they serve.** In every run without insertions of its own,
a lookup is a hit exactly if its key was last used within the time to live and the cache has not
been cleared since. A hit serves what was computed last for the key, a miss computes once, and a
computation that fails stores nothing. So all answers but those to sweeps, and the counts of hits
and misses, stay the same when sweeps are put in or left out and with any interval between them. -/
theorem hit_law (ttl sweepInterval : Nat) (calls : List (Call ε)) (hclock : InOrder calls)
    (hinsert : ∀ call ∈ calls, call.request.isInsert = false) :
    let log := ((unused ttl sweepInterval).run calls).1
    let c := ((unused ttl sweepInterval).run calls).2
    (∀ past x future k, log = past ++ x :: future → x.request.LooksUp k →
      (x.answer.isHit = true ↔ ∃ u, LastUse k past u ∧ x.time - u.time ≤ ttl) ∧
      (x.answer.isHit = true → ∃ p, LastComputed k past p ∧ x.answer = x.request.hitBy p) ∧
      (x.answer.isHit = false → x.answer = x.request.missed)) ∧
    (∀ t k k' e (err : ε), (c.perform t (.getOrInsert k (.error err))).2.entries.get? k' = some e →
      ∃ before, c.entries.get? k' = some before ∧ before.predicate = e.predicate) ∧
    (c.hits = log.countP (·.answer.isHit) ∧ c.misses = log.countP (·.answer.isMiss)) ∧
    ∀ sweepInterval' calls', InOrder calls' → withoutSweeps calls' = withoutSweeps calls →
      let log' := ((unused ttl sweepInterval').run calls').1
      let c' := ((unused ttl sweepInterval').run calls').2
      answersWithoutSweeps log' = answersWithoutSweeps log ∧
        c'.hits = c.hits ∧ c'.misses = c.misses := by
  intro log c
  refine ⟨?_, ?_, ?_, ?_⟩
  · intro past x future k h hx
    exact ⟨isHit_iff hclock h hx, answer_of_isHit hclock hinsert h hx, answer_of_miss hclock h hx⟩
  · intro t k k' e err h
    exact held_of_failure h
  · obtain ⟨hhits, hmisses⟩ := counts_run (unused ttl sweepInterval) calls
    exact ⟨hhits.trans (Nat.zero_add _), hmisses.trans (Nat.zero_add _)⟩
  · intro sweepInterval' calls' hclock' hsame log' c'
    -- both runs are compared with the run without sweeps
    have halike : ∀ i, Alike 0 (unused ttl i) (unused ttl 0) :=
      fun i => ⟨rfl, rfl, rfl, fun _ => rfl⟩
    obtain ⟨hlog, _, hend⟩ := (halike sweepInterval).run hclock (fun _ _ => Nat.zero_le _) hinsert
    obtain ⟨hlog', _, hend'⟩ := (halike sweepInterval').run hclock' (fun _ _ => Nat.zero_le _)
      (isInsert_of_withoutSweeps hinsert hsame)
    rw [hsame] at hlog' hend'
    refine ⟨hlog'.trans hlog.symm, ?_, ?_⟩
    · exact hend'.hits_eq.trans hend.hits_eq.symm
    · exact hend'.misses_eq.trans hend.misses_eq.symm

/-- A predicate is computed, used at the end of its time to live, and looked up too late. -/
theorem hit_law_idle :
    let k : PredicateKey := ⟨"User", "", .asIs⟩
    let calls : List (Call Unit) := [⟨0, .getOrInsert k (.ok (.const true))⟩, ⟨20, .get k⟩,
      ⟨41, .getOrInsert k (.ok (.const false))⟩]
    InOrder calls ∧ (∀ call ∈ calls, call.request.isInsert = false) ∧
      ((unused 20 7).run calls).1.map (·.answer) =
        [.computed (.ok (.const true)) 1, .found (some (.const true)),
          .computed (.ok (.const false)) 1] ∧
      ((unused 20 7).run calls).2.hits = 1 := by
  intro k calls
  have hclock : InOrder calls := by simp [InOrder, calls]
  have hinsert : ∀ call ∈ calls, call.request.isInsert = false := by simp [calls, Request.isInsert]
  obtain ⟨-, -, ⟨hhits, -⟩, -⟩ := hit_law 20 7 calls hclock hinsert
  exact ⟨hclock, hinsert, rfl, hhits⟩

end RecordFilter.PredicateCache

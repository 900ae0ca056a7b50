import RecordFilter.Cache

/-!
# What the predicate cache holds

No operation of the cache makes up a predicate: what it answers and what it holds afterwards was
there before under the same key, or is what was inserted. `All P` says that every predicate in the
cache stands in the relation `P` to its key; the lemmas are one for each operation.
-/

namespace RecordFilter.PredicateCache

variable {P : PredicateKey → Predicate → Prop} {c : PredicateCache}
  {k : PredicateKey} {p : Predicate}

/-- Every predicate in the cache stands in a relation to its key. -/
def All (P : PredicateKey → Predicate → Prop) (c : PredicateCache) : Prop :=
  ∀ k e, c.entries.get? k = some e → P k e.predicate

theorem all_ofSettings (s : CacheSettings) : (ofSettings s).All P := by
  intro k e he
  simp [ofSettings] at he

theorem all_clear (c : PredicateCache) : c.clear.All P := by
  intro k e he
  simp [clear] at he

/-! ## Dropping entries -/

theorem All.sweep (h : c.All P) (now : Nat) : (c.sweep now).2.All P :=
  fun k e he => h k e (Table.get?_filter.1 he).1

theorem All.sweepIfDue (h : c.All P) (now : Nat) : (c.sweepIfDue now).All P := by
  unfold PredicateCache.sweepIfDue
  split
  · exact h.sweep now
  · exact h

/-! ## Using entries -/

theorem All.touch (h : c.All P) (now : Nat) (hp : P k p) : (c.touch now k p).All P := by
  intro k' e he
  by_cases hk : k' = k
  · subst hk
    obtain rfl : ⟨p, now⟩ = e := by simpa [PredicateCache.touch] using he
    exact hp
  · rw [PredicateCache.touch, Table.get?_insert_of_ne _ _ hk] at he
    exact h k' e he

/-- **The three ways in which a lookup ends.** The sweep that may come first is part of each. -/
theorem get_cases (c : PredicateCache) (now : Nat) (k : PredicateKey) :
    let s := c.sweepIfDue now
    (s.entries.get? k = none ∧ c.get now k = (none, { s with misses := s.misses + 1 })) ∨
    (∃ e, s.entries.get? k = some e ∧ e.expired now s.ttl = true ∧
      c.get now k = (none, { s with entries := s.entries.erase k, evictions := s.evictions + 1,
                                    misses := s.misses + 1 })) ∨
    (∃ e, s.entries.get? k = some e ∧ e.expired now s.ttl = false ∧
      c.get now k = (some e.predicate, { s.touch now k e.predicate with hits := s.hits + 1 })) := by
  unfold PredicateCache.get
  generalize c.sweepIfDue now = s
  cases hg : s.entries.get? k with
  | none => exact .inl ⟨hg, by simp [hg]⟩
  | some e =>
    cases he : e.expired now s.ttl with
    | true => exact .inr (.inl ⟨e, hg, he, by simp [hg, he]⟩)
    | false => exact .inr (.inr ⟨e, hg, he, by simp [hg, he]⟩)

/-- A lookup finds nothing where there is nothing. -/
theorem get_of_get?_eq_none (now : Nat) (h : c.entries.get? k = none) :
    (c.get now k).1 = none := by
  have hs : (c.sweepIfDue now).entries.get? k = none := by
    unfold PredicateCache.sweepIfDue
    split
    · refine Option.eq_none_iff_forall_ne_some.2 fun e he => ?_
      rw [(Table.get?_filter.1 he).1] at h
      cases h
    · exact h
  rcases get_cases c now k with ⟨-, hr⟩ | ⟨e, hg, -⟩ | ⟨e, hg, -⟩
  · rw [hr]
  · rw [hs] at hg
    cases hg
  · rw [hs] at hg
    cases hg

/-- A lookup that finds nothing leaves no entry under its key, not even an expired one. -/
theorem get?_of_get_eq_none {now : Nat} (h : (c.get now k).1 = none) :
    (c.get now k).2.entries.get? k = none := by
  rcases get_cases c now k with ⟨hg, hr⟩ | ⟨e, -, -, hr⟩ | ⟨e, -, -, hr⟩
  · rw [hr]
    exact hg
  · rw [hr]
    exact Table.get?_erase_self _ k
  · rw [hr] at h
    cases h

/-- What is inserted where there is nothing is there. -/
theorem insert_of_get?_eq_none {now : Nat} (h : c.entries.get? k = none) :
    c.insert now k p = (p, c.touch now k p) := by
  rw [PredicateCache.insert, h]

/-- A lookup drops expired entries and uses one; what it answers was there. -/
theorem All.get (h : c.All P) (now : Nat) (k : PredicateKey) :
    (c.get now k).2.All P ∧ ∀ q, (c.get now k).1 = some q → P k q := by
  have hs : (c.sweepIfDue now).All P := h.sweepIfDue now
  rcases get_cases c now k with ⟨-, hr⟩ | ⟨e, -, -, hr⟩ | ⟨e, hg, -, hr⟩
  · rw [hr]
    exact ⟨hs, by simp⟩
  · rw [hr]
    exact ⟨fun k' e' he => hs k' e' (Table.get?_filter.1 he).1, by simp⟩
  · have he : P k e.predicate := hs k e hg
    rw [hr]
    refine ⟨hs.touch now he, ?_⟩
    rintro q ⟨⟩
    exact he

/-- What an insertion answers was there or is the predicate inserted. -/
theorem All.insert (h : c.All P) (now : Nat) (k : PredicateKey) (hp : P k p) :
    (c.insert now k p).2.All P ∧ P k (c.insert now k p).1 := by
  have held : P k (c.insert now k p).1 := by
    unfold PredicateCache.insert
    cases hg : c.entries.get? k with
    | none => exact hp
    | some e => exact h k e hg
  exact ⟨h.touch now held, held⟩

/-! ## Looking up or computing -/

/-- A lookup that falls back on a computation with a state. -/
theorem getOrInsert_run {σ ε : Type} (c : PredicateCache) (now : Nat) (k : PredicateKey)
    (compute : StateM σ (Except ε Predicate)) (s : σ) :
    c.getOrInsert now k compute s = match c.get now k with
      | (some p, c) => ((.ok p, c), s)
      | (none, c) => match compute s with
        | (.ok p, s) => ((.ok (c.insert now k p).1, (c.insert now k p).2), s)
        | (.error e, s) => ((.error e, c), s) := by
  unfold getOrInsert
  rcases c.get now k with ⟨_ | p, c⟩
  · show (compute >>= _ : StateM σ _) s = _
    rw [show ∀ f : Except ε Predicate → StateM σ (Except ε Predicate × PredicateCache),
      (compute >>= f) s = f (compute s).1 (compute s).2 from fun _ => rfl]
    rcases compute s with ⟨_ | p, s⟩ <;> rfl
  · rfl

end RecordFilter.PredicateCache

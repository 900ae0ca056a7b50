/-!
# Tables

A finite map as a list of entries with distinct keys. `get?` is its view: every operation is
described by what it does to the answers of `get?` and to the number of entries.
-/

namespace RecordFilter

/-- Entries with distinct keys. -/
structure Table (κ α : Type) where
  entries : List (κ × α)
  distinct : (entries.map Prod.fst).Nodup

namespace Table

variable {κ α : Type}

/-- No entries. -/
def empty : Table κ α := ⟨[], .nil⟩

/-- The number of entries. -/
def size (t : Table κ α) : Nat := t.entries.length

@[simp] theorem size_empty : (empty : Table κ α).size = 0 := rfl

/-- The entries with a property. -/
def filter (t : Table κ α) (p : κ → α → Bool) : Table κ α :=
  ⟨t.entries.filter fun (k, a) => p k a, t.distinct.sublist (List.filter_sublist.map _)⟩

theorem size_filter_le (t : Table κ α) (p : κ → α → Bool) : (t.filter p).size ≤ t.size :=
  List.length_filter_le _ _

variable [DecidableEq κ]

/-- The value under a key. -/
def get? (t : Table κ α) (k : κ) : Option α := (t.entries.find? (·.1 = k)).map (·.2)

/-- The table without the entry under a key. -/
def erase (t : Table κ α) (k : κ) : Table κ α := t.filter fun k' _ => k' ≠ k

/-- The table with a value under a key, which replaces the one that is there. -/
def insert (t : Table κ α) (k : κ) (a : α) : Table κ α :=
  ⟨(k, a) :: (t.erase k).entries, by
    rw [List.map_cons, List.nodup_cons]
    refine ⟨?_, (t.erase k).distinct⟩
    simp [erase, filter]⟩

/-! ## Answers -/

@[simp] theorem get?_empty (k : κ) : (empty : Table κ α).get? k = none := rfl

/-- A value is under a key exactly when that entry is in the list. -/
theorem get?_eq_some_iff {t : Table κ α} {k : κ} {a : α} :
    t.get? k = some a ↔ (k, a) ∈ t.entries := by
  obtain ⟨es, h⟩ := t
  simp only [get?]
  induction es with
  | nil => simp
  | cons e es ih =>
    obtain ⟨k', a'⟩ := e
    rw [List.map_cons, List.nodup_cons] at h
    have := ih h.2
    by_cases hk : k' = k
    · subst hk
      have hn : ∀ b, (k', b) ∉ es := fun b hb => h.1 (List.mem_map.2 ⟨_, hb, rfl⟩)
      simp [hn, eq_comm]
    · simp [hk, this, Ne.symm hk]

theorem get?_filter {t : Table κ α} {p : κ → α → Bool} {k : κ} {a : α} :
    (t.filter p).get? k = some a ↔ t.get? k = some a ∧ p k a = true := by
  simp [get?_eq_some_iff, filter]

theorem get?_erase_self (t : Table κ α) (k : κ) : (t.erase k).get? k = none := by
  refine Option.eq_none_iff_forall_ne_some.2 fun a h => ?_
  simpa using (get?_filter.1 h).2

theorem get?_erase_of_ne (t : Table κ α) {k k' : κ} (h : k' ≠ k) :
    (t.erase k).get? k' = t.get? k' := by
  ext a
  simp [erase, get?_filter, h]

@[simp] theorem get?_insert_self (t : Table κ α) (k : κ) (a : α) :
    (t.insert k a).get? k = some a := by
  simp [get?, insert]

theorem get?_insert_of_ne (t : Table κ α) {k k' : κ} (a : α) (h : k' ≠ k) :
    (t.insert k a).get? k' = t.get? k' := by
  rw [← get?_erase_of_ne t h]
  simp [get?, insert, Ne.symm h]

/-! ## Sizes -/

/-- Erasing a key takes one entry away, if there is one under the key. -/
theorem size_erase_add (t : Table κ α) (k : κ) :
    (t.erase k).size + (if (t.get? k).isSome then 1 else 0) = t.size := by
  obtain ⟨es, h⟩ := t
  simp only [size, erase, filter, get?, Option.isSome_map]
  induction es with
  | nil => rfl
  | cons e es ih =>
    rw [List.map_cons, List.nodup_cons] at h
    by_cases hk : e.1 = k
    · -- no other entry has the key
      have hrest : es.filter (fun e => decide (e.1 ≠ k)) = es := by
        rw [List.filter_eq_self]
        intro e' he'
        rw [decide_eq_true_eq]
        rintro rfl
        exact h.1 (List.mem_map.2 ⟨e', he', hk.symm⟩)
      rw [List.filter_cons_of_neg (by simp [hk]), List.find?_cons_of_pos (by simp [hk]), hrest]
      rfl
    · rw [List.filter_cons_of_pos (by simp [hk]), List.find?_cons_of_neg (by simp [hk]),
        List.length_cons, List.length_cons, ← ih h.2]
      omega

theorem size_insert (t : Table κ α) (k : κ) (a : α) :
    (t.insert k a).size = t.size + if (t.get? k).isSome then 0 else 1 := by
  have herase := size_erase_add t k
  have hinsert : (t.insert k a).size = (t.erase k).size + 1 := rfl
  cases hk : (t.get? k).isSome with
  | true =>
    rw [hk, if_pos rfl] at herase
    rw [hinsert, herase]
    rfl
  | false =>
    rw [hk, if_neg Bool.false_ne_true] at herase
    rw [hinsert, ← herase]
    rfl

end Table

end RecordFilter

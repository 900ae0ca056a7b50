import RecordFilter.Like.Counted
import RecordFilter.Proofs.Like.Reading

/-!
# Markers that are drawn

Drawing for a pattern passes over the markers that are found in it and takes the next one
(`exists_freshMarker`). So a pattern is reduced with some marker that it does not contain, and any
such marker can be the one (`reduces_iff_exists_read`).

What the pattern is reduced to does not depend on the draws unless a marker shows: that is, unless
it comes to stand in the pattern when the asterisks are removed (`Draws.Hidden.read_eq`).
-/

namespace RecordFilter.Like

open Text

variable {marker pattern : List Char} {d : Draws} {l : Like}

/-! ## Sequences of markers -/

namespace Draws

theorem drop_zero (d : Draws) : d.drop 0 = d := by
  ext1
  funext k
  exact congrArg d.marker (Nat.zero_add k)

theorem drop_drop (d : Draws) (m n : ℕ) : (d.drop m).drop n = d.drop (m + n) := by
  ext1
  funext k
  exact congrArg d.marker (Nat.add_assoc m n k).symm

/-- The second sequence is what is left of the first at some time. -/
def Leads (d d' : Draws) : Prop := ∃ k, d' = d.drop k

theorem Leads.refl (d : Draws) : d.Leads d := ⟨0, d.drop_zero.symm⟩

theorem Leads.trans {d d' d'' : Draws} (h : d.Leads d') (h' : d'.Leads d'') : d.Leads d'' := by
  obtain ⟨k, rfl⟩ := h
  obtain ⟨j, rfl⟩ := h'
  exact ⟨k + j, d.drop_drop k j⟩

/-- A marker before all others. -/
def cons (marker : List Char) (h : IsMarker marker) (d : Draws) : Draws where
  marker
    | 0 => marker
    | k + 1 => d.marker k
  isMarker
    | 0 => h
    | k + 1 => d.isMarker k
  fresh text k := by
    obtain ⟨j, hj⟩ := d.fresh text k
    exact ⟨j + 1, hj⟩

end Draws

/-! ## Drawing -/

/-- Drawing for a pattern takes the first marker that is not found in it, and those behind it are
still to come. -/
theorem exists_freshMarker (pattern : List Char) (d : Draws) :
    ∃ k, freshMarker pattern d = (d.marker k, d.drop (k + 1)) ∧
      occurs (d.marker k) pattern = false ∧ ∀ j < k, occurs (d.marker j) pattern = true := by
  fun_induction freshMarker pattern d with
  | case1 d hfound ih =>
    obtain ⟨k, hk, hnot, hbefore⟩ := ih
    have hmarker (j : ℕ) : d.tail.marker j = d.marker (j + 1) :=
      congrArg d.marker (Nat.add_comm 1 j)
    refine ⟨k + 1, ?_, hmarker k ▸ hnot, ?_⟩
    · rw [hk, hmarker, Draws.tail, Draws.drop_drop, Nat.add_comm 1]
    · rintro (_ | j) hj
      · exact hfound
      · exact hmarker j ▸ hbefore j (Nat.lt_of_succ_lt_succ hj)
  | case2 d hfound =>
    exact ⟨0, rfl, Bool.eq_false_of_not_eq_true hfound, fun j hj => absurd hj j.not_lt_zero⟩

/-- What a pattern is reduced to with the markers that are still to come. -/
def Draws.read (d : Draws) (pattern : List Char) : Like := (ofPattern pattern d).1

/-- The marker with which a pattern is reduced, and what is still to come then. -/
theorem exists_ofPattern (pattern : List Char) (d : Draws) :
    ∃ k, ofPattern pattern d = (ofMarked (d.marker k) pattern, d.drop (k + 1)) ∧
      occurs (d.marker k) pattern = false := by
  obtain ⟨k, hk, hnot, -⟩ := exists_freshMarker pattern d
  refine ⟨k, ?_, hnot⟩
  show (ofMarked (freshMarker pattern d).1 pattern, (freshMarker pattern d).2) = _
  rw [hk]

/-- What a pattern is reduced to with some marker that is not found in it. -/
def Reduces (pattern : List Char) (l : Like) : Prop :=
  ∃ marker, IsMarker marker ∧ occurs marker pattern = false ∧ l = ofMarked marker pattern

theorem leads_ofPattern (pattern : List Char) (d : Draws) : d.Leads (ofPattern pattern d).2 := by
  obtain ⟨k, hk, -⟩ := exists_ofPattern pattern d
  exact ⟨k + 1, congrArg Prod.snd hk⟩

theorem reduces_read (d : Draws) (pattern : List Char) : Reduces pattern (d.read pattern) := by
  obtain ⟨k, hk, hnot⟩ := exists_ofPattern pattern d
  exact ⟨d.marker k, d.isMarker k, hnot, congrArg Prod.fst hk⟩

/-- **Any marker that is not found in a pattern can be drawn for it**, and no other can. -/
theorem reduces_iff_exists_read : Reduces pattern l ↔ ∃ d : Draws, d.read pattern = l := by
  constructor
  · rintro ⟨marker, hmarker, hnot, rfl⟩
    refine ⟨.cons marker hmarker (.counted 0), ?_⟩
    obtain ⟨k, hk, -, hbefore⟩ := exists_freshMarker pattern (.cons marker hmarker (.counted 0))
    -- the first marker is drawn, as no marker before the one that is drawn would do
    obtain rfl : k = 0 := by
      by_contra hpos
      have hfound : occurs marker pattern = true := hbefore 0 (Nat.pos_of_ne_zero hpos)
      rw [hnot] at hfound
      cases hfound
    show ofMarked (freshMarker pattern _).1 pattern = _
    rw [hk]
    rfl
  · rintro ⟨d, rfl⟩
    exact reduces_read d pattern

/-! ## Markers that show -/

/-- The marker is not found in the pattern, but in what is left of it without its asterisks. -/
def Shows (marker pattern : List Char) : Prop :=
  occurs marker pattern = false ∧ occurs marker (pattern.filter (· != wildcard)) = true

instance (marker pattern : List Char) : Decidable (Shows marker pattern) :=
  inferInstanceAs (Decidable (_ ∧ _))

/-- A marker that is not found in a pattern shows if it is found among its characters. -/
theorem shows_iff (h : IsMarker marker) (hnot : occurs marker pattern = false) :
    Shows marker pattern ↔ marker <:+: literalOf (reading pattern) := by
  rw [Shows, occurs_iff, infix_filter_iff h]
  exact and_iff_right hnot

/-- The characters of a pattern that stand for themselves, and their place between its wildcards. -/
def meant (pattern : List Char) : Like := ⟨placeOf (reading pattern), literalOf (reading pattern)⟩

/-- A pattern is reduced to what its reading says, if the marker is not found in it and does not
show. -/
theorem ofMarked_eq_meant (h : IsMarker marker) (hnot : occurs marker pattern = false)
    (hshows : ¬ Shows marker pattern) : ofMarked marker pattern = meant pattern :=
  ofMarked_eq h (mt (shows_iff h hnot).2 hshows)

/-- No marker that is still to come shows in the pattern. -/
def Draws.Hidden (d : Draws) (pattern : List Char) : Prop := ∀ k, ¬ Shows (d.marker k) pattern

/-- No marker shows in a pattern without opening brackets. -/
theorem Draws.hidden_of_not_mem (h : '<' ∉ pattern) (d : Draws) : d.Hidden pattern := by
  rintro k ⟨-, hshows⟩
  obtain ⟨tail, hmarker, -⟩ := (d.isMarker k).exists_tail
  have hin := (occurs_iff.1 hshows).subset
  rw [hmarker] at hin
  exact h (List.mem_of_mem_filter (hin List.mem_cons_self))

namespace Draws.Hidden

theorem of_leads {d' : Draws} (h : d.Hidden pattern) (hlater : d.Leads d') :
    d'.Hidden pattern := by
  obtain ⟨n, rfl⟩ := hlater
  exact fun k => h (n + k)

/-- **Where no marker shows, the draws do not matter.** -/
theorem read_eq (h : d.Hidden pattern) : d.read pattern = meant pattern := by
  obtain ⟨k, hk, hnot⟩ := exists_ofPattern pattern d
  rw [Draws.read, hk]
  exact ofMarked_eq_meant (d.isMarker k) hnot (h k)

end Draws.Hidden

end RecordFilter.Like

import RecordFilter.Proofs.Like.Draws

/-!
# Patterns as globs

A text is a match of a pattern if it can be cut into pieces that its wildcards and characters stand
for (`Glob`). A pattern is reduced to one literal and its place, so inner wildcards are lost; where
the wildcards stand only before and behind the characters, nothing is
(`pattern_means_reading`).
-/

namespace RecordFilter.Like

open Text

variable {marker s literal pattern : List Char} {ps : List Piece} {i j n : ℕ} {l : Like}

/-- A text that a row of pieces stands for. -/
inductive Glob : List Piece → List Char → Prop
  | nil : Glob [] []
  | wild (t : List Char) {ps s} : Glob ps s → Glob (.wild :: ps) (t ++ s)
  | only (c : Char) {ps s} : Glob ps s → Glob (.only c :: ps) (c :: s)

theorem glob_nil_iff : Glob [] s ↔ s = [] := by
  constructor
  · rintro ⟨⟩
    rfl
  · rintro rfl
    exact .nil

theorem glob_wild_iff : Glob (.wild :: ps) s ↔ ∃ t u, s = t ++ u ∧ Glob ps u := by
  constructor
  · rintro (_ | ⟨t, h⟩)
    exact ⟨t, _, rfl, h⟩
  · rintro ⟨t, u, rfl, h⟩
    exact .wild t h

/-- Wildcards in a row stand for what one of them does. -/
theorem glob_wilds_iff :
    Glob (List.replicate (n + 1) .wild ++ ps) s ↔ ∃ t u, s = t ++ u ∧ Glob ps u := by
  induction n generalizing s with
  | zero => exact glob_wild_iff
  | succ n ih =>
    rw [List.replicate_succ, List.cons_append, glob_wild_iff]
    constructor
    · rintro ⟨t, u, rfl, h⟩
      obtain ⟨t', u, rfl, hu⟩ := ih.1 h
      exact ⟨t ++ t', u, by simp, hu⟩
    · rintro ⟨t, u, rfl, h⟩
      exact ⟨t, u, rfl, ih.2 ⟨[], u, rfl, h⟩⟩

theorem glob_wilds (h : 0 < n) (s : List Char) : Glob (List.replicate n .wild) s := by
  obtain ⟨n, rfl⟩ := Nat.exists_eq_succ_of_ne_zero h.ne'
  rw [← List.append_nil (List.replicate _ _), glob_wilds_iff]
  exact ⟨s, [], by simp, .nil⟩

theorem glob_literal_iff :
    Glob (literal.map .only ++ ps) s ↔ ∃ t, s = literal ++ t ∧ Glob ps t := by
  induction literal generalizing s with
  | nil => simp
  | cons c literal ih =>
    rw [List.map_cons, List.cons_append]
    constructor
    · rintro (_ | _ | ⟨_, h⟩)
      obtain ⟨t, rfl, ht⟩ := ih.1 h
      exact ⟨t, rfl, ht⟩
    · rintro ⟨t, rfl, h⟩
      exact .only c (ih.2 ⟨t, rfl, h⟩)

/-! ## Wildcards at the ends -/

/-- Wildcards, then characters, then wildcards. -/
def outer (i : ℕ) (literal : List Char) (j : ℕ) : List Piece :=
  List.replicate i .wild ++ (literal.map .only ++ List.replicate j .wild)

theorem literalOf_outer : literalOf (outer i literal j) = literal := by
  have hwild (n : ℕ) : literalOf (List.replicate n .wild) = [] := by
    induction n with
    | zero => rfl
    | succ n ih => rwa [List.replicate_succ, literalOf]
  have honly : literalOf (literal.map .only) = literal := by
    induction literal with
    | nil => rfl
    | cons c literal ih => rw [List.map_cons, literalOf, ih]
  simp [outer, literalOf_append, hwild, honly]

theorem exists_reading_eq_outer (h : pieces pattern = outer i literal j) :
    ∃ k, reading pattern = outer i literal k ∧ (0 < i ∨ 0 < k) := by
  rw [reading]
  split
  · next hw =>
    refine ⟨j, h, ?_⟩
    by_contra hij
    obtain ⟨rfl, rfl⟩ : i = 0 ∧ j = 0 := by omega
    simp [h, outer] at hw
  · next hw =>
    refine ⟨j + 1, ?_, .inr j.succ_pos⟩
    rw [h, outer, outer, List.replicate_succ']
    simp

theorem placeOf_outer_both : placeOf (outer (i + 1) literal (j + 1)) = .anywhere := by
  have hlast : (outer (i + 1) literal (j + 1)).getLast? = some .wild := by
    rw [outer, List.replicate_succ' (n := j), ← List.append_assoc, ← List.append_assoc,
      List.getLast?_concat]
  rw [placeOf, if_pos (by rfl), if_pos hlast]

theorem placeOf_outer_before (h : literal ≠ []) :
    placeOf (outer (i + 1) literal 0) = .ending := by
  obtain ⟨c, hc⟩ : ∃ c, (outer (i + 1) literal 0).getLast? = some (.only c) := by
    refine ⟨literal.getLast h, ?_⟩
    rw [outer, List.replicate_zero, List.append_nil, List.getLast?_append, List.getLast?_map,
      List.getLast?_eq_some_getLast h]
    rfl
  rw [placeOf, if_pos (by rfl), hc, if_neg (by simp)]

theorem placeOf_outer_behind (h : literal ≠ []) :
    placeOf (outer 0 literal j) = .beginning := by
  obtain ⟨c, literal, rfl⟩ := List.exists_cons_of_ne_nil h
  rw [placeOf, if_neg (by simp [outer])]

theorem accepts_nil (m : LikeMode) (s : List Char) : accepts ⟨m, []⟩ s = true := by
  cases m with
  | beginning => simp [accepts]
  | ending => simp [accepts]
  | anywhere => simp [accepts, occurs_iff]

/-- The place of a literal is where its wildcards let it stand. -/
theorem accepts_outer (h : 0 < i ∨ 0 < j) (s : List Char) :
    accepts ⟨placeOf (outer i literal j), literal⟩ s = true ↔ Glob (outer i literal j) s := by
  by_cases hl : literal = []
  · -- the wildcards stand in one row, and every text is accepted
    subst hl
    rw [accepts_nil, outer, List.map_nil, List.nil_append, ← List.replicate_add]
    simp [glob_wilds (show 0 < i + j by omega)]
  · cases i with
    | zero =>
      have hj : 0 < j := by simpa using h
      rw [placeOf_outer_behind hl, outer, List.replicate_zero, List.nil_append, glob_literal_iff]
      simp only [accepts, List.isPrefixOf_iff_prefix]
      constructor
      · rintro ⟨t, rfl⟩
        exact ⟨t, rfl, glob_wilds hj t⟩
      · rintro ⟨t, rfl, -⟩
        exact ⟨t, rfl⟩
    | succ i =>
      rw [outer, glob_wilds_iff, ← outer]
      simp only [glob_literal_iff]
      cases j with
      | zero =>
        rw [placeOf_outer_before hl]
        simp only [accepts, List.isSuffixOf_iff_suffix, List.replicate_zero, glob_nil_iff]
        constructor
        · rintro ⟨t, rfl⟩
          exact ⟨t, literal, rfl, [], by simp, rfl⟩
        · rintro ⟨t, -, rfl, -, rfl, rfl⟩
          exact ⟨t, by simp⟩
      | succ j =>
        rw [placeOf_outer_both]
        simp only [accepts, occurs_iff]
        constructor
        · rintro ⟨t, v, rfl⟩
          exact ⟨t, literal ++ v, by simp, v, rfl, glob_wilds j.succ_pos v⟩
        · rintro ⟨t, -, rfl, v, rfl, -⟩
          exact ⟨t, v, by simp⟩

/-! ## Patterns -/

/-- The characters of a pattern that has its wildcards at the ends stand in it as they are, so a
marker that is not found in the pattern is not found in them. -/
theorem not_infix_of_outer (hm : IsMarker marker) (h : pieces pattern = outer i literal j)
    (hnot : ¬ marker <:+: pattern) : ¬ marker <:+: literal := by
  intro hin
  have hwritten : (literal.map Piece.only).flatMap (written escapedWildcard) =
      literal.flatMap (hidden escapedWildcard) := by
    rw [List.flatMap_map]
    rfl
  have hpart : literal.flatMap (hidden escapedWildcard) <:+: pattern := by
    rw [← flatMap_written_pieces pattern, h, outer, List.flatMap_append, List.flatMap_append,
      hwritten, ← List.append_assoc]
    exact ⟨_, _, rfl⟩
  exact hnot ((infix_flatMap_hidden hm.wildcard_not_mem hin).trans hpart)

/-- What a pattern with its wildcards at the ends is reduced to. -/
theorem Reduces.eq (hl : Reduces pattern l) (h : pieces pattern = outer i literal j) :
    l = ⟨placeOf (reading pattern), literal⟩ := by
  obtain ⟨marker, hm, hnot, rfl⟩ := hl
  have hliteral : literalOf (reading pattern) = literal := by
    rw [literalOf_reading, h, literalOf_outer]
  have hfree : ¬ marker <:+: literalOf (reading pattern) := by
    rw [hliteral]
    exact not_infix_of_outer hm h (occurs_eq_false_iff.1 hnot)
  rw [ofMarked_eq hm hfree, hliteral]

/-- **Patterns mean what they say.** A marker that is found neither in a pattern nor in what is
left of it without its asterisks does not show: the pattern is reduced to the characters of its
reading, and to their place between its wildcards. Where the wildcards are at the ends only, a
marker that is not found in the pattern is enough, and the texts that the pattern accepts are those
that its reading stands for. -/
theorem pattern_means_reading (pattern : List Char) :
    (∀ marker, IsMarker marker → occurs marker pattern = false →
      occurs marker (pattern.filter (· != wildcard)) = false →
      ofMarked marker pattern =
        ⟨placeOf (reading pattern), literalOf (reading pattern)⟩) ∧
    (∀ d : Draws, Reduces pattern (ofPattern pattern d).1) ∧
    ∀ i literal j, pieces pattern = outer i literal j → ∀ l, Reduces pattern l →
      ∀ s, l.accepts s = true ↔ Glob (reading pattern) s := by
  refine ⟨?_, fun d => reduces_read d pattern, ?_⟩
  · intro marker hm hnot hleft
    refine ofMarked_eq_meant hm hnot fun hshows => ?_
    rw [hshows.2] at hleft
    cases hleft
  · intro i literal j h l hl s
    obtain ⟨k, hk, hpos⟩ := exists_reading_eq_outer h
    rw [hl.eq h, hk]
    exact accepts_outer hpos s

/-- An escaped asterisk between wildcards. -/
theorem pattern_means_reading_escaped :
    let pattern := ['*', 'a', '\\', '*', 'b', '*']
    let marker := "<0123456789ab4def8123456789abcdef>".toList
    let l := (ofPattern pattern (.counted 0)).1
    IsDrawn marker ∧ occurs marker pattern = false ∧
      occurs marker (pattern.filter (· != wildcard)) = false ∧
      pieces pattern = outer 1 ['a', '*', 'b'] 1 ∧ Reduces pattern l ∧
      ofMarked marker pattern = ⟨.anywhere, ['a', '*', 'b']⟩ ∧
      l.accepts "ba*bb".toList = true := by
  intro pattern marker l
  have hdrawn : IsDrawn marker :=
    ⟨"0123456789ab4def8123456789abcdef".toList, rfl, rfl, List.all_eq_true.1 (by decide)⟩
  have hnot : occurs marker pattern = false := by decide
  have hleft : occurs marker (pattern.filter (· != wildcard)) = false := by decide
  have houter : pieces pattern = outer 1 ['a', '*', 'b'] 1 := by decide
  obtain ⟨hread, hreduces, hglob⟩ := pattern_means_reading pattern
  have hmatch : Glob (reading pattern) "ba*bb".toList :=
    .wild ['b'] (.only 'a' (.only '*' (.only 'b' (.wild ['b'] .nil))))
  exact ⟨hdrawn, hnot, hleft, houter, hreduces _, hread marker hdrawn.isMarker hnot hleft,
    (hglob 1 ['a', '*', 'b'] 1 houter _ (hreduces _) _).2 hmatch⟩

end RecordFilter.Like

import RecordFilter.Proofs.Like.Draws

/-!
# Which markers show

Markers are drawn at random until one is not found in the pattern. But a marker is looked for later
on, when the wildcards have been removed, and it can come to stand there because an asterisk has
gone from within it. Then it is taken for a hidden asterisk (`marker_shows`). Two different markers
that are not found in the pattern make no difference exactly if neither of them shows
(`same_reduction_iff`).
-/

namespace RecordFilter.Like

open Text

variable {marker marker' pattern new s u : List Char}

/-! ## Two markers in one text -/

theorem IsMarker.eq_of_prefix (h : IsMarker marker) (h' : IsMarker marker')
    (hpre : marker <+: marker') : marker = marker' := by
  obtain ⟨word, rfl, -⟩ := h
  obtain ⟨word', rfl, hword'⟩ := h'
  obtain ⟨-, hpre⟩ := List.cons_prefix_cons.1 hpre
  rcases List.prefix_concat_iff.1 hpre with heq | hpre
  · rw [heq]
  · -- a marker has a closing bracket at its end and nowhere else
    have hc : '>' ∈ word' := hpre.subset (by simp)
    exact absurd rfl (hword' _ hc).2.1

theorem IsMarker.not_prefix_of_ne {c : Char} (h : IsMarker marker) (hc : c ≠ '<') :
    ¬ marker <+: c :: s := by
  obtain ⟨tail, rfl, -⟩ := h.exists_tail
  intro hpre
  exact hc (List.cons_prefix_cons.1 hpre).1.symm

/-- A marker that is found behind a text without opening brackets does not begin within it. -/
theorem IsMarker.infix_of_infix_append (h : IsMarker marker) (hu : '<' ∉ u)
    (hin : marker <:+: u ++ s) : marker <:+: s := by
  induction u with
  | nil => exact hin
  | cons c u ih =>
    rw [List.mem_cons, not_or] at hu
    rcases List.infix_cons_iff.1 hin with hpre | hin
    · exact absurd hpre (h.not_prefix_of_ne (Ne.symm hu.1))
    · exact ih hu.2 hin

theorem prefix_replaceAll (h : IsMarker marker) (hu : '<' ∉ u) (hpre : u <+: s) :
    u <+: replaceAll marker new s := by
  induction u generalizing s with
  | nil => exact List.nil_prefix
  | cons c u ih =>
    rw [List.mem_cons, not_or] at hu
    obtain ⟨t, rfl⟩ := hpre
    rw [List.cons_append, replaceAll_cons_of_not (h.not_prefix_of_ne (Ne.symm hu.1))]
    exact List.cons_prefix_cons.2 ⟨rfl, ih hu.2 (List.prefix_append u t)⟩

/-- Replacing one marker leaves every other marker alone. -/
theorem infix_replaceAll (h : IsMarker marker) (h' : IsMarker marker') (hne : marker' ≠ marker)
    (hin : marker' <:+: s) : marker' <:+: replaceAll marker new s := by
  induction s using replaceAll_induction h.ne_nil with
  | nil => simpa using hin
  | found s ih =>
    rw [replaceAll_append_self h.ne_nil]
    obtain ⟨tail, hmarker, htail⟩ := h.exists_tail
    rw [hmarker, List.cons_append] at hin
    rcases List.infix_cons_iff.1 hin with hpre | hin
    · -- two markers that begin at one place are the same
      rw [← List.cons_append, ← hmarker] at hpre
      rcases List.prefix_or_prefix_of_prefix hpre (List.prefix_append marker s) with hp | hp
      · exact absurd (h'.eq_of_prefix h hp) hne
      · exact absurd (h.eq_of_prefix h' hp).symm hne
    · exact (ih (h'.infix_of_infix_append htail hin)).trans (List.suffix_append _ _).isInfix
  | kept d s hd ih =>
    rw [replaceAll_cons_of_not hd]
    rcases List.infix_cons_iff.1 hin with hpre | hin
    · obtain ⟨tail, rfl, htail⟩ := h'.exists_tail
      obtain ⟨rfl, htail'⟩ := List.cons_prefix_cons.1 hpre
      exact (List.cons_prefix_cons.2 ⟨rfl, prefix_replaceAll h htail htail'⟩).isInfix
    · exact List.infix_cons (ih hin)

/-! ## Two markers for one pattern -/

/-- A marker that stands among the characters of a pattern goes when it is drawn, and stays when
another one is. -/
theorem not_infix_of_same_literal (h : IsMarker marker) (h' : IsMarker marker')
    (hne : marker ≠ marker')
    (heq : (ofMarked marker pattern).literal = (ofMarked marker' pattern).literal) :
    ¬ marker <:+: literalOf (reading pattern) := by
  intro hin
  have hstays : marker <:+: (ofMarked marker' pattern).literal := by
    rw [ofMarked_literal h']
    exact infix_replaceAll h' h hne (infix_flatMap_hidden h.wildcard_not_mem hin)
  rw [← heq, ofMarked_literal h] at hstays
  exact not_infix_replaceAll h.ne_nil h.wildcard_not_mem hstays

/-- **Two markers that a pattern does not contain** give it the same place. They give it the same
literal exactly if they are one marker, or neither of them shows: neither is found in the pattern
without its asterisks. -/
theorem same_reduction_iff (pattern : List Char) (h : IsMarker marker) (h' : IsMarker marker')
    (hnot : occurs marker pattern = false) (hnot' : occurs marker' pattern = false) :
    (ofMarked marker pattern).mode = (ofMarked marker' pattern).mode ∧
    ((ofMarked marker pattern).literal = (ofMarked marker' pattern).literal ↔
      marker = marker' ∨ ¬ Shows marker pattern ∧ ¬ Shows marker' pattern) := by
  refine ⟨by rw [ofMarked_mode h, ofMarked_mode h'], ?_⟩
  rw [shows_iff h hnot, shows_iff h' hnot']
  constructor
  · intro heq
    by_cases hne : marker = marker'
    · exact .inl hne
    · exact .inr ⟨not_infix_of_same_literal h h' hne heq,
        not_infix_of_same_literal h' h (Ne.symm hne) heq.symm⟩
  · rintro (rfl | ⟨hfree, hfree'⟩)
    · rfl
    · rw [ofMarked_eq h hfree, ofMarked_eq h' hfree']

/-- Two markers that are drawn for a pattern with asterisks of both kinds. -/
theorem same_reduction_iff_drawn :
    let marker := "<0123456789ab4def8123456789abcdef>".toList
    let marker' := "<fedcba98765443218fedcba987654321>".toList
    let pattern := "a\\*b<*>".toList
    IsDrawn marker ∧ IsDrawn marker' ∧ occurs marker pattern = false ∧
      occurs marker' pattern = false ∧
      (ofMarked marker pattern).literal = (ofMarked marker' pattern).literal := by
  intro marker marker' pattern
  have hdrawn : IsDrawn marker :=
    ⟨"0123456789ab4def8123456789abcdef".toList, rfl, rfl, List.all_eq_true.1 (by decide)⟩
  have hdrawn' : IsDrawn marker' :=
    ⟨"fedcba98765443218fedcba987654321".toList, rfl, rfl, List.all_eq_true.1 (by decide)⟩
  have hnot : occurs marker pattern = false := by decide
  have hnot' : occurs marker' pattern = false := by decide
  have hsame := same_reduction_iff pattern hdrawn.isMarker hdrawn'.isMarker hnot hnot'
  exact ⟨hdrawn, hdrawn', hnot, hnot', hsame.2.2 (.inr ⟨by decide, by decide⟩)⟩

/-- **A marker shows**: an asterisk within it keeps it from being found in the pattern, and once the
asterisk is removed it is taken for a hidden one. Another marker leaves the characters alone. -/
theorem marker_shows :
    let marker := "<00000000000040008000000000000000>".toList
    let marker' := "<00000000000040008000000000000001>".toList
    let pattern := "<000000000000*40008000000000000000>".toList
    IsDrawn marker ∧ IsDrawn marker' ∧ occurs marker pattern = false ∧
      occurs marker' pattern = false ∧ (ofMarked marker pattern).literal = ['*'] ∧
      (ofMarked marker' pattern).literal = marker := by
  intro marker marker' pattern
  have hdrawn : IsDrawn marker :=
    ⟨"00000000000040008000000000000000".toList, rfl, rfl, List.all_eq_true.1 (by decide)⟩
  have hdrawn' : IsDrawn marker' :=
    ⟨"00000000000040008000000000000001".toList, rfl, rfl, List.all_eq_true.1 (by decide)⟩
  have hliteral : literalOf (reading pattern) = marker := by decide
  refine ⟨hdrawn, hdrawn', by decide, by decide, ?_, ?_⟩
  · have hreplaced : replaceAll marker [wildcard] (marker ++ []) = [wildcard] := by
      rw [replaceAll_append_self hdrawn.isMarker.ne_nil, replaceAll_nil, List.append_nil]
    rw [ofMarked_literal hdrawn.isMarker, hliteral,
      flatMap_hidden_of_not_mem hdrawn.isMarker.wildcard_not_mem]
    rwa [List.append_nil] at hreplaced
  · have hfree : ¬ marker' <:+: literalOf (reading pattern) := by
      rw [hliteral, ← occurs_eq_false_iff]
      decide
    rw [ofMarked_eq hdrawn'.isMarker hfree, hliteral]

end RecordFilter.Like

import Mathlib
import RecordFilter.Like
import RecordFilter.Proofs.Text.Replacing

/-!
# What patterns say

A pattern is read from the left as a row of pieces: wildcards, and characters that stand for
themselves (`pieces`).

It is reduced by three replacements instead. Each of them is followed through the pieces: hiding the
escaped asterisks writes every piece in another way (`replaceAll_escapedWildcard`), removing the
asterisks leaves the pieces that stand for themselves (`filter_flatMap_written`), and putting the
asterisks back undoes the hiding, unless the characters make up the marker without its help
(`replaceAll_flatMap_hidden`). So a pattern is reduced to what its reading says (`ofMarked_eq`).
-/

namespace RecordFilter.Like

open Text

/-! ## Pieces -/

/-- A piece of a pattern. -/
inductive Piece where
  /-- Any text. -/
  | wild
  /-- This character. -/
  | only (c : Char)
  deriving DecidableEq

/-- The pieces of a pattern from the left: an asterisk behind a backslash is an asterisk, any other
asterisk is a wildcard. -/
def pieces : List Char → List Piece
  | [] => []
  | '\\' :: '*' :: s => .only '*' :: pieces s
  | c :: s => (if c = wildcard then .wild else .only c) :: pieces s

/-- The pieces of a pattern, with a wildcard at the end if it has none. -/
def reading (pattern : List Char) : List Piece :=
  if .wild ∈ pieces pattern then pieces pattern else pieces pattern ++ [.wild]

/-- The characters that stand for themselves. -/
def literalOf : List Piece → List Char
  | [] => []
  | .wild :: ps => literalOf ps
  | .only c :: ps => c :: literalOf ps

/-- Where the characters of a row of pieces stand: anywhere between wildcards, at the end behind
one, and at the beginning otherwise. -/
def placeOf (ps : List Piece) : LikeMode :=
  if ps.head? = some .wild then
    if ps.getLast? = some .wild then .anywhere else .ending
  else .beginning

/-! ## Writing pieces -/

/-- A character in a text whose asterisks are hidden behind a marker. -/
def hidden (marker : List Char) (c : Char) : List Char := if c = wildcard then marker else [c]

/-- A piece in a text whose escaped asterisks are hidden behind a marker. -/
def written (marker : List Char) : Piece → List Char
  | .wild => [wildcard]
  | .only c => hidden marker c

variable {marker s t u : List Char} {ps : List Piece}

theorem escapedWildcard_ne_nil : escapedWildcard ≠ [] := List.cons_ne_nil _ _

/-- Hiding the escaped asterisks of a pattern. -/
theorem replaceAll_escapedWildcard (marker pattern : List Char) :
    replaceAll escapedWildcard marker pattern = (pieces pattern).flatMap (written marker) := by
  fun_induction pieces pattern with
  | case1 => simp
  | case2 s ih =>
    show replaceAll escapedWildcard marker (escapedWildcard ++ s) = _
    rw [replaceAll_append_self escapedWildcard_ne_nil, ih]
    simp [written, hidden, wildcard]
  | case3 c s hc ih =>
    have hnot : ¬ escapedWildcard <+: c :: s := by
      rintro ⟨t, ht⟩
      rw [escapedWildcard, List.cons_append, List.singleton_append, List.cons.injEq] at ht
      exact hc t ht.1.symm ht.2.symm
    rw [replaceAll_cons_of_not hnot, ih]
    by_cases hw : c = wildcard <;> simp [written, hidden, hw]

/-- A pattern is its pieces, with a backslash before the asterisks among them. -/
theorem flatMap_written_pieces (pattern : List Char) :
    (pieces pattern).flatMap (written escapedWildcard) = pattern := by
  fun_induction pieces pattern with
  | case1 => rfl
  | case2 s ih =>
    rw [List.flatMap_cons, ih]
    rfl
  | case3 c s hc ih => by_cases hw : c = wildcard <;> simp [written, hidden, hw, ih]

/-- What is left of written pieces without asterisks. -/
theorem filter_flatMap_written (marker : List Char) (ps : List Piece) :
    (ps.flatMap (written marker)).filter (· != wildcard) =
      (literalOf ps).flatMap (hidden (marker.filter (· != wildcard))) := by
  induction ps with
  | nil => rfl
  | cons p ps ih =>
    cases p with
    | wild => simpa [written, literalOf] using ih
    | only c => by_cases hc : c = wildcard <;> simp [written, literalOf, hidden, hc, ih]

theorem flatMap_hidden_of_not_mem (h : wildcard ∉ s) : s.flatMap (hidden marker) = s := by
  induction s with
  | nil => rfl
  | cons c s ih =>
    have hc : c ≠ wildcard := by
      rintro rfl
      simp at h
    simp [hidden, hc, ih (by simp_all)]

/-- A part without asterisks stays where the asterisks are hidden. -/
theorem infix_flatMap_hidden (hs : wildcard ∉ s) (h : s <:+: t) :
    s <:+: t.flatMap (hidden marker) := by
  obtain ⟨a, b, rfl⟩ := h
  rw [List.flatMap_append, List.flatMap_append, flatMap_hidden_of_not_mem hs]
  exact ⟨_, _, rfl⟩

/-! ## Markers -/

/-- The digits of hexadecimal numbers, with letters in lower case. -/
def isHexDigit (c : Char) : Bool := c.isDigit || 'a' ≤ c && c ≤ 'f'

/-- The markers that are drawn: thirty-two hexadecimal digits between angle brackets. -/
def IsDrawn (marker : List Char) : Prop :=
  ∃ word, marker = '<' :: (word ++ ['>']) ∧ word.length = 32 ∧ ∀ c ∈ word, isHexDigit c = true

theorem IsDrawn.isMarker (h : IsDrawn marker) : IsMarker marker := by
  obtain ⟨word, rfl, -, hword⟩ := h
  have hne (d : Char) (hd : isHexDigit d = false) : ∀ c ∈ word, c ≠ d := by
    rintro c hc rfl
    simp [hword c hc] at hd
  exact ⟨word, rfl, fun c hc => ⟨hne _ rfl c hc, hne _ rfl c hc, hne _ rfl c hc, hne _ rfl c hc⟩⟩

namespace IsMarker

theorem ne_nil (h : IsMarker marker) : marker ≠ [] := by
  obtain ⟨word, rfl, -⟩ := h
  exact List.cons_ne_nil _ _

theorem wildcard_not_mem (h : IsMarker marker) : wildcard ∉ marker := by
  obtain ⟨word, rfl, hword⟩ := h
  simp only [List.mem_cons, List.mem_append, List.not_mem_nil, or_false]
  rintro (hc | hc | hc)
  · simp [wildcard] at hc
  · exact (hword _ hc).2.2.1 rfl
  · simp [wildcard] at hc

theorem backslash_not_mem (h : IsMarker marker) : '\\' ∉ marker := by
  obtain ⟨word, rfl, hword⟩ := h
  simp only [List.mem_cons, List.mem_append, List.not_mem_nil, or_false]
  rintro (hc | hc | hc)
  · simp at hc
  · exact (hword _ hc).2.2.2 rfl
  · simp at hc

theorem filter_eq (h : IsMarker marker) : marker.filter (· != wildcard) = marker := by
  rw [List.filter_eq_self]
  rintro c hc
  rw [bne_iff_ne]
  rintro rfl
  exact h.wildcard_not_mem hc

/-- A marker has an opening bracket at its beginning and nowhere else. -/
theorem exists_tail (h : IsMarker marker) : ∃ tail, marker = '<' :: tail ∧ '<' ∉ tail := by
  obtain ⟨word, rfl, hword⟩ := h
  refine ⟨_, rfl, ?_⟩
  rw [List.mem_append, List.mem_singleton]
  rintro (hc | hc)
  · exact (hword _ hc).1 rfl
  · simp at hc

theorem head?_eq (h : IsMarker marker) : marker.head? = some '<' := by
  obtain ⟨word, rfl, -⟩ := h
  rfl

theorem getLast?_eq (h : IsMarker marker) : marker.getLast? = some '>' := by
  obtain ⟨word, rfl, -⟩ := h
  rw [← List.cons_append, List.getLast?_concat]

end IsMarker

/-- What a text with hidden asterisks begins with was there before, up to the first marker. -/
theorem prefix_of_prefix_flatMap_hidden (h : IsMarker marker) (hu : '<' ∉ u)
    (hpre : u <+: s.flatMap (hidden marker)) : u <+: s := by
  obtain ⟨tail, rfl, -⟩ := h.exists_tail
  induction s generalizing u with
  | nil => simpa using hpre
  | cons c s ih =>
    rw [List.flatMap_cons, hidden] at hpre
    split at hpre
    · rcases List.prefix_cons_iff.1 hpre with rfl | ⟨t, rfl, -⟩
      · exact List.nil_prefix
      · simp at hu
    · rcases List.prefix_cons_iff.1 hpre with rfl | ⟨t, rfl, ht⟩
      · exact List.nil_prefix
      · exact List.cons_prefix_cons.2 ⟨rfl, ih (by simp_all) ht⟩

/-- Hidden asterisks are put back, and nothing else, if the marker is not in the text itself. -/
theorem replaceAll_flatMap_hidden (h : IsMarker marker) (hs : ¬ marker <:+: s) :
    replaceAll marker [wildcard] (s.flatMap (hidden marker)) = s := by
  induction s with
  | nil => simp
  | cons c s ih =>
    have hs' : ¬ marker <:+: s := fun hin => hs (List.infix_cons hin)
    rw [List.flatMap_cons, hidden]
    split
    · next hc => rw [replaceAll_append_self h.ne_nil, ih hs', hc, List.singleton_append]
    · have hnot : ¬ marker <+: c :: s.flatMap (hidden marker) := by
        intro hpre
        obtain ⟨tail, rfl, htail⟩ := h.exists_tail
        obtain ⟨hc, hpre⟩ := List.cons_prefix_cons.1 hpre
        have htail := prefix_of_prefix_flatMap_hidden h htail hpre
        exact hs (List.cons_prefix_cons.2 ⟨hc, htail⟩).isInfix
      rw [List.singleton_append, replaceAll_cons_of_not hnot, ih hs']

/-! ## Reading with a marker -/

theorem mem_flatMap_written (h : IsMarker marker) :
    wildcard ∈ ps.flatMap (written marker) ↔ .wild ∈ ps := by
  induction ps with
  | nil => simp
  | cons p ps ih =>
    rw [List.flatMap_cons, List.mem_append, ih]
    cases p with
    | wild => simp [written]
    | only c =>
      have hc : wildcard ∉ hidden marker c := by
        rw [hidden]
        split
        · exact h.wildcard_not_mem
        · next hc => simpa using Ne.symm hc
      simp [written, hc]

theorem mask_eq (h : IsMarker marker) (pattern : List Char) :
    mask marker pattern = (reading pattern).flatMap (written marker) := by
  rw [mask, reading, replaceAll_escapedWildcard]
  by_cases hw : Piece.wild ∈ pieces pattern
  · simp [mem_flatMap_written h, hw]
  · simp [mem_flatMap_written h, hw, written]

theorem head?_written (h : IsMarker marker) (p : Piece) :
    ∃ c, (written marker p).head? = some c ∧ (c = wildcard ↔ p = .wild) := by
  cases p with
  | wild => exact ⟨wildcard, rfl, by simp⟩
  | only c =>
    by_cases hc : c = wildcard
    · refine ⟨'<', ?_, by simp [wildcard]⟩
      rw [written, hidden, if_pos hc, h.head?_eq]
    · refine ⟨c, ?_, by simp [hc]⟩
      rw [written, hidden, if_neg hc, List.head?_cons]

theorem getLast?_written (h : IsMarker marker) (p : Piece) :
    ∃ c, (written marker p).getLast? = some c ∧ (c = wildcard ↔ p = .wild) := by
  cases p with
  | wild => exact ⟨wildcard, rfl, by simp⟩
  | only c =>
    by_cases hc : c = wildcard
    · refine ⟨'>', ?_, by simp [wildcard]⟩
      rw [written, hidden, if_pos hc, h.getLast?_eq]
    · refine ⟨c, ?_, by simp [hc]⟩
      rw [written, hidden, if_neg hc, List.getLast?_singleton]

/-- The ends of a masked pattern are asterisks where the ends of the reading are wildcards. -/
theorem modeOf_flatMap_written (h : IsMarker marker) (ps : List Piece) :
    modeOf (ps.flatMap (written marker)) = placeOf ps := by
  have hhead : (ps.flatMap (written marker)).head? = some wildcard ↔ ps.head? = some .wild := by
    cases ps with
    | nil => simp
    | cons p ps =>
      obtain ⟨c, hc, hp⟩ := head?_written h p
      rw [List.flatMap_cons, List.head?_append, hc]
      simp [hp]
  have hlast : (ps.flatMap (written marker)).getLast? = some wildcard ↔
      ps.getLast? = some .wild := by
    cases ps using List.reverseRecOn with
    | nil => simp
    | append_singleton ps p =>
      obtain ⟨c, hc, hp⟩ := getLast?_written h p
      rw [List.flatMap_append, List.getLast?_append, List.flatMap_singleton, hc]
      simp [hp]
  simp only [modeOf, placeOf, hhead, hlast]

theorem literalOf_append (ps qs : List Piece) :
    literalOf (ps ++ qs) = literalOf ps ++ literalOf qs := by
  induction ps with
  | nil => rfl
  | cons p ps ih => cases p <;> simp [literalOf, ih]

theorem literalOf_reading (pattern : List Char) :
    literalOf (reading pattern) = literalOf (pieces pattern) := by
  rw [reading]
  split
  · rfl
  · simp [literalOf_append, literalOf]

theorem ofMarked_mode (h : IsMarker marker) (pattern : List Char) :
    (ofMarked marker pattern).mode = placeOf (reading pattern) := by
  show modeOf (mask marker pattern) = _
  rw [mask_eq h, modeOf_flatMap_written h]

/-- The literal before the asterisks are put back. -/
theorem ofMarked_literal (h : IsMarker marker) (pattern : List Char) :
    (ofMarked marker pattern).literal =
      replaceAll marker [wildcard] ((literalOf (reading pattern)).flatMap (hidden marker)) := by
  show replaceAll marker [wildcard] ((mask marker pattern).filter (· != wildcard)) = _
  rw [mask_eq h, filter_flatMap_written, h.filter_eq]

/-- A pattern is reduced to what its reading says, if its characters do not make up the marker. -/
theorem ofMarked_eq {pattern : List Char} (h : IsMarker marker)
    (hnot : ¬ marker <:+: literalOf (reading pattern)) :
    ofMarked marker pattern = ⟨placeOf (reading pattern), literalOf (reading pattern)⟩ := by
  rw [Like.mk.injEq]
  exact ⟨ofMarked_mode h pattern,
    (ofMarked_literal h pattern).trans (replaceAll_flatMap_hidden h hnot)⟩

/-- The pattern without its asterisks is its characters, with backslashes for the asterisks among
them. -/
theorem filter_eq_flatMap_hidden (pattern : List Char) :
    pattern.filter (· != wildcard) =
      (literalOf (reading pattern)).flatMap (hidden ['\\']) := by
  conv_lhs => rw [← flatMap_written_pieces pattern]
  rw [filter_flatMap_written, literalOf_reading]
  rfl

/-- A marker is found in a pattern without its asterisks exactly if it is found in the characters
of the pattern. -/
theorem infix_filter_iff (h : IsMarker marker) (pattern : List Char) :
    marker <:+: pattern.filter (· != wildcard) ↔ marker <:+: literalOf (reading pattern) := by
  rw [filter_eq_flatMap_hidden]
  constructor
  · let unescaped (c : Char) : Char := if c = wildcard then '\\' else c
    have hmap : (literalOf (reading pattern)).flatMap (hidden ['\\']) =
        (literalOf (reading pattern)).map unescaped := by
      rw [List.map_eq_flatMap]
      congr 1
      funext c
      simp only [hidden, unescaped]
      split <;> rfl
    rw [hmap]
    rintro ⟨a, b, heq⟩
    obtain ⟨t, b', ht, hab, -⟩ := List.map_eq_append_iff.1 heq.symm
    obtain ⟨a', m, rfl, -, hm⟩ := List.map_eq_append_iff.1 hab
    -- a marker has no backslash, so none of its characters was an asterisk
    have hself : m.map unescaped = m.map id := by
      refine List.map_congr_left fun c hc => if_neg fun hw => h.backslash_not_mem ?_
      rw [← hm, List.mem_map]
      exact ⟨c, hc, if_pos hw⟩
    rw [ht, ← hm, hself, List.map_id]
    exact ⟨a', b', rfl⟩
  · exact infix_flatMap_hidden h.wildcard_not_mem

end RecordFilter.Like

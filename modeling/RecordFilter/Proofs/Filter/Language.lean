import RecordFilter.Proofs.Filter.Roundtrip

/-!
# The language of filters

What comes of reading a text, for every text (`read_outcome`). A text that is read is blank, or a
way to write the filter it is read as, so every part of the text is in the tree. A comparator is
reported as unknown only in a text that is otherwise a filter, and it is the first unknown one of
that text. All other texts are no filters, whatever comparators there might be.
-/

namespace RecordFilter.Filter

open Text

/-! ## Places -/

/-- The place of a part of a text behind another part. -/
def Span.behind (head part : List Char) : Span where
  start := byteLength head
  stop := byteLength (head ++ part)
  line := lineOf head
  column := columnOf head

theorem before_append (head s : List Char) : before (head ++ s) s = head := by
  simp [before]

theorem Span.between_append (head part rest : List Char) :
    Span.between (head ++ (part ++ rest)) (part ++ rest) rest = .behind head part := by
  have hstop : before (head ++ (part ++ rest)) rest = head ++ part := by
    rw [← List.append_assoc, before_append]
  rw [between, before_append, hstop]
  rfl

/-! ## Unknown comparators -/

/-- A clause whose comparator is unknown. -/
def Clause.Unknown (k : Clause) : Prop := Comparator.ofToken? (String.ofList k.token) = none

/-- A token is the first unknown comparator in the tree of a text, and this is its place: every
other unknown comparator begins further behind. -/
def FirstUnknown (t : Node Clause) (text : List Char) (token : String) (span : Span) : Prop :=
  ∃ k ∈ t.leaves, k.Unknown ∧ token = String.ofList k.token ∧
    (∃ head rest, text = head ++ k.tokenStart ∧ k.tokenStart = k.token ++ rest ∧
      span = .behind head k.token) ∧
    ∀ j ∈ t.leaves, j.Unknown → j.tokenStart <:+ k.tokenStart

theorem Clause.resolve_eq_error {k : Clause} {whole : List Char} {e : SyntaxError}
    (h : k.resolve whole = .error e) :
    k.Unknown ∧ e = .unknownComparator (String.ofList k.token)
      (.between whole k.tokenStart (k.tokenStart.drop k.token.length)) := by
  dsimp only [Clause.resolve] at h
  split at h
  · cases h
  · next hnone =>
    cases h
    exact ⟨hnone, rfl⟩

theorem LaidOut.firstUnknown {t : Node Clause} {text : List Char} {e : SyntaxError}
    (h : LaidOut t text) (he : t.traverse (Clause.resolve text) = .error e) :
    ∃ token span, e = .unknownComparator token span ∧ FirstUnknown t text token span := by
  obtain ⟨before, k, after, hsplit, hknown, hk⟩ :=
    Node.firstError_iff_split.1 (Node.traverse_eq_error_iff.1 he)
  obtain ⟨hunknown, rfl⟩ := Clause.resolve_eq_error hk
  have horder := h.inOrder
  have hmem : k ∈ t.leaves := by
    rw [hsplit]
    exact List.mem_append_right before List.mem_cons_self
  obtain ⟨s, u, hs, hwritten⟩ := horder.exists_written hmem
  obtain ⟨rest, htokenStart, -⟩ := hwritten.exists_tokenStart_eq
  obtain ⟨head, hhead⟩ := hwritten.tokenStart_suffix.trans hs
  refine ⟨_, _, rfl, k, hmem, hunknown, rfl, ⟨head, rest, hhead.symm, htokenStart, ?_⟩, ?_⟩
  · rw [← hhead, htokenStart, List.drop_left, Span.between_append]
  · intro j hj hjunknown
    rw [hsplit, List.mem_append, List.mem_cons] at hj
    rcases hj with hj | rfl | hj
    · -- before the reported one, every comparator is known
      obtain ⟨c, hc⟩ := hknown j hj
      have hspells := (Clause.spells_of_resolve hc).comparator
      rw [hjunknown] at hspells
      cases hspells
    · exact List.suffix_rfl
    · rw [hsplit] at horder
      exact horder.tokenStart_suffix hj

/-! ## All texts -/

/-- **What comes of reading a text.** A filter, which the text is a way to write, or nothing if the
text is blank; the first unknown comparator of a text that is a tree laid out; or an error in a text
that is neither blank nor any tree laid out. -/
theorem read_outcome (text : String) :
    match read text with
    | .ok f => Blanks text.toList [] ∧ f = unrestricted ∨ WellFormed f ∧ Writes f text
    | .error (.unknownComparator token span) =>
      ∃ t, LaidOut t text.toList ∧ FirstUnknown t text.toList token span
    | .error (.unexpected ..) => ¬ Blanks text.toList [] ∧ ∀ t, ¬ LaidOut t text.toList := by
  rw [read]
  by_cases hblank : Blanks text.toList []
  · rw [readChars_of_blank hblank]
    exact .inl ⟨hblank, rfl⟩
  · by_cases hlaid : ∃ t, LaidOut t text.toList
    · obtain ⟨t, ht⟩ := hlaid
      -- all that is left to fail are the comparators
      rw [readChars_of_laidOut ht]
      cases htree : t.traverse (Clause.resolve text.toList) with
      | ok f =>
        have hspells : t.Rel Clause.Spells f :=
          (Node.traverse_eq_ok_iff.1 htree).imp fun _ _ => Clause.spells_of_resolve
        have hwrites : Writes f text := ⟨t, hspells, ht⟩
        exact .inr ⟨hwrites.wellFormed, hwrites⟩
      | error e =>
        obtain ⟨token, span, rfl, hfirst⟩ := ht.firstUnknown htree
        exact ⟨t, ht, hfirst⟩
    · have hnone : ∀ t, ¬ LaidOut t text.toList := fun t ht => hlaid ⟨t, ht⟩
      obtain ⟨e, he⟩ := readChars_of_not_laidOut hblank hnone
      rw [he]
      exact ⟨hblank, hnone⟩

end RecordFilter.Filter

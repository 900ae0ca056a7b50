import RecordFilter.Proofs.Filter.Reading.Clause

/-!
# Reading trees

A constraint and alternatives are read exactly where they are written. One step of the readers is
inverted once (`Takes.group_or_clause`, `readAlternatives_takes_iff`). What is read is written, by
induction on the length of the text; what is written is read, by induction on the way it is written,
which also tells what follows each part.
-/

namespace RecordFilter.Filter

open Text

/-! ## One step of the readers -/

/-- A reader takes a value from the head of a text and leaves a rest. -/
def Takes {α : Type} {s : List Char} (x : Except Stuck (Taken α s)) (a : α) (rest : List Char) :
    Prop := ∃ hlt, x = .ok ⟨a, rest, hlt⟩

/-- A constraint that is read is a group, or it is a clause. -/
theorem Takes.group_or_clause {missing : Stuck} {s rest : List Char} {t : Node Clause}
    {more : List Construct} (h : Takes (readConstraint missing s) (t, more) rest) :
    (∃ u r v, s = '(' :: u ∧
      Takes (readAlternatives ⟨skipSpace u, [.conjunction]⟩ (skipSpace u)) r v ∧
      skipSpace v = ')' :: rest ∧ t = r.node) ∨
    ∃ c u k, s = c :: u ∧ isSelectorStart c = true ∧ readComparison c u = .ok (k, rest) ∧
      t = .leaf k := by
  obtain ⟨hlt, h⟩ := h
  rw [readConstraint.eq_def] at h
  split at h
  · cases h
  · next c u =>
    split at h
    · next hc =>
      subst hc
      dsimp only at h
      split at h
      · cases h
      · next r v hv hinner =>
        split at h
        · next after hclose =>
          cases h
          exact .inl ⟨u, r, v, rfl, ⟨hv, hinner⟩, hclose, rfl⟩
        · cases h
    · split at h
      · next hc =>
        split at h
        · cases h
        · next k stop hread =>
          cases h
          exact .inr ⟨c, u, k, rfl, hc, hread, rfl⟩
      · cases h

theorem takes_group {missing : Stuck} {u v rest : List Char} {r : Reading}
    (hread : Takes (readAlternatives ⟨skipSpace u, [.conjunction]⟩ (skipSpace u)) r v)
    (hclose : skipSpace v = ')' :: rest) :
    Takes (readConstraint missing ('(' :: u)) (r.node, []) rest := by
  obtain ⟨hv, hread⟩ := hread
  refine ⟨?_, ?_⟩
  · have h₁ := skipSpace_length_le u
    have h₂ := skipSpace_length_le v
    rw [hclose] at h₂
    simp at h₂ ⊢
    omega
  · rw [readConstraint.eq_def]
    dsimp only
    rw [if_pos rfl]
    split
    · next h => rw [hread] at h; cases h
    · next h =>
      rw [hread] at h
      cases h
      split
      · next h => rw [hclose] at h; cases h; rfl
      · next h => exact absurd hclose (h _)

theorem takes_clause {missing : Stuck} {c : Char} {u rest : List Char} {k : Clause}
    (hc : isSelectorStart c = true) (hread : readComparison c u = .ok (k, rest)) :
    ∃ more, Takes (readConstraint missing (c :: u)) (.leaf k, more) rest := by
  refine ⟨if k.arguments.isEmpty then [.arguments] else [], ?_, ?_⟩
  · exact Nat.lt_succ_of_lt (readComparison_length hread)
  · rw [readConstraint.eq_def]
    dsimp only
    rw [if_neg, if_pos hc]
    · split
      · next h => rw [hread] at h; cases h
      · next h => rw [hread] at h; cases h; rfl
    · rintro rfl
      cases hc

/-- What is read behind a combinator is shorter than what stood before it. -/
theorem skipSpace_length_lt_of_combinator {c : Combinator} {u v : List Char}
    (h : combinator? (skipSpace u) = some (c, v)) : (skipSpace v).length < u.length := by
  have h₁ := combinator?_length h
  have h₂ := skipSpace_length_le u
  have h₃ := skipSpace_length_le v
  omega

/-- Alternatives that are read are a constraint, and further ones if a combinator follows it. -/
theorem readAlternatives_takes_iff {missing : Stuck} {s rest : List Char} {r : Reading} :
    Takes (readAlternatives missing s) r rest ↔
      ∃ t more u, Takes (readConstraint missing s) (t, more) u ∧
        (combinator? (skipSpace u) = none ∧ rest = u ∧ r = .single t more ∨
          ∃ c v r', combinator? (skipSpace u) = some (c, v) ∧
            Takes (readAlternatives ⟨skipSpace v, c.expected⟩ (skipSpace v)) r' rest ∧
            r = r'.join t c) := by
  constructor
  · rintro ⟨hlt, h⟩
    rw [readAlternatives.eq_def] at h
    obtain ⟨⟨⟨t, more⟩, u, hu⟩, hread, h⟩ := bind_eq_ok_iff.1 h
    refine ⟨t, more, u, ⟨hu, hread⟩, ?_⟩
    dsimp only at h
    split at h
    · next hnone =>
      cases h
      exact .inl ⟨hnone, rfl, rfl⟩
    · next c v hsome =>
      obtain ⟨⟨r', w, hw⟩, hread, he⟩ := bind_eq_ok_iff.1 h
      cases he
      exact .inr ⟨c, v, r', hsome, ⟨hw, hread⟩, rfl⟩
  · rintro ⟨t, more, u, ⟨hu, hread⟩, h⟩
    rcases h with ⟨hnone, rfl, rfl⟩ | ⟨c, v, r', hsome, ⟨hw, hmore⟩, rfl⟩
    · refine ⟨hu, ?_⟩
      rw [readAlternatives.eq_def]
      refine bind_eq_ok_iff.2 ⟨_, hread, ?_⟩
      dsimp only
      split
      · rfl
      · next h => rw [hnone] at h; cases h
    · have hlt := skipSpace_length_lt_of_combinator hsome
      refine ⟨hw.trans (hlt.trans hu), ?_⟩
      rw [readAlternatives.eq_def]
      refine bind_eq_ok_iff.2 ⟨_, hread, ?_⟩
      dsimp only
      split
      · next h => rw [hsome] at h; cases h
      · next h =>
        rw [hsome] at h
        cases h
        exact bind_eq_ok_iff.2 ⟨_, hmore, rfl⟩

/-! ## What is read is written -/

theorem Alternatives.join {t : Node Clause} {r : Reading} {c : Combinator} {s u v rest : List Char}
    (h : Constraint t s u) (hjoint : Joint c u v) (hmore : Alternatives r.alternatives v rest) :
    Alternatives (r.join t c).alternatives s rest := by
  obtain ⟨alternatives, more⟩ := r
  cases c with
  | and =>
    cases alternatives with
    | nil => cases hmore
    | cons a alternatives => exact .and h hjoint hmore
  | or => exact .or h hjoint hmore

mutual

theorem readConstraint_sound {missing : Stuck} {s rest : List Char} {t : Node Clause}
    {more : List Construct} (h : Takes (readConstraint missing s) (t, more) rest) :
    Constraint t s rest := by
  rcases h.group_or_clause with ⟨u, r, v, hs, hinner, hclose, rfl⟩ |
    ⟨c, u, k, rfl, hc, hread, rfl⟩
  · have hlt : (skipSpace u).length < s.length := by
      rw [hs]
      exact Nat.lt_succ_of_le (skipSpace_length_le u)
    have hr := readAlternatives_sound hinner
    obtain ⟨hclose, -⟩ := skipSpace_eq_iff.1 hclose
    exact .group (hs ▸ .refl) (hr.of_blanks (blanks_skipSpace u)) hclose
  · exact .clause (readComparison_sound hc hread)
termination_by (s.length, 0)

theorem readAlternatives_sound {missing : Stuck} {s rest : List Char} {r : Reading}
    (h : Takes (readAlternatives missing s) r rest) : Alternatives r.alternatives s rest := by
  obtain ⟨t, more, u, hread, hmore⟩ := readAlternatives_takes_iff.1 h
  have hconstraint := readConstraint_sound hread
  rcases hmore with ⟨-, rfl, rfl⟩ | ⟨c, v, r', hjoint, hmore, rfl⟩
  · exact .single hconstraint
  · -- the reader of what is behind the combinator has less text to read
    have hlt : (skipSpace v).length < s.length := by
      obtain ⟨hu, -⟩ := hread
      exact (skipSpace_length_lt_of_combinator hjoint).trans hu
    have hr := readAlternatives_sound hmore
    exact .join hconstraint (combinator?_skipSpace_eq_some.1 hjoint)
      (hr.of_blanks (blanks_skipSpace v))
termination_by (s.length, 1)

end

/-! ## What is written is read -/

/-- What can follow alternatives: the end of the text or of a group. -/
inductive Ends : List Char → Prop
  | stop {s : List Char} (h : Blanks s []) : Ends s
  | closing {s t : List Char} (h : Blanks s (')' :: t)) : Ends s

theorem Ends.follows {s : List Char} (h : Ends s) : Follows s := by
  cases h with
  | stop h => exact .stop h
  | closing h => exact .closing h

theorem Ends.combinator?_eq_none {s : List Char} (h : Ends s) :
    combinator? (skipSpace s) = none := by
  cases h with
  | stop h =>
    rw [skipSpace_eq_iff.2 ⟨h, stops_nil⟩]
    rfl
  | closing h =>
    rw [skipSpace_eq_iff.2 ⟨h, stops_cons.2 rfl⟩]
    exact combinator?_cons_eq_none rfl fun c => by cases c <;> decide

mutual

theorem Constraint.takes : ∀ {t : Node Clause} {s rest : List Char}, Constraint t s rest →
    Follows rest → ∀ missing : Stuck,
      ∃ more, Takes (readConstraint missing (skipSpace s)) (t, more) rest
  | _, _, _, .clause h, hrest, missing => by
    obtain ⟨c, u, hs, hc, hread⟩ := readComparison_complete h hrest
    rw [hs]
    exact takes_clause hc hread
  | _, _, _, @Constraint.group _ s u v rest hopen h hclose, hrest, missing => by
    obtain ⟨r, hr, rfl⟩ := h.takes (.closing hclose) ⟨skipSpace u, [.conjunction]⟩
    have hclose := skipSpace_eq_iff.2 ⟨hclose, stops_cons.2 rfl⟩
    rw [skipSpace_eq_iff.2 ⟨hopen, stops_cons.2 rfl⟩]
    exact ⟨[], takes_group hr hclose⟩

theorem Alternatives.takes : ∀ {alternatives : List (List (Node Clause))} {s rest : List Char},
    Alternatives alternatives s rest → Ends rest → ∀ missing : Stuck,
      ∃ r, Takes (readAlternatives missing (skipSpace s)) r rest ∧ r.alternatives = alternatives
  | _, _, rest, .single h, hrest, missing => by
    obtain ⟨more, hread⟩ := h.takes hrest.follows missing
    refine ⟨.single _ more, readAlternatives_takes_iff.2 ?_, rfl⟩
    exact ⟨_, more, rest, hread, .inl ⟨hrest.combinator?_eq_none, rfl, rfl⟩⟩
  | _, _, _, @Alternatives.and t a as s u v rest h hand hmore, hrest, missing => by
    -- the constraint joins the first of the alternatives behind it
    obtain ⟨more, hread⟩ := h.takes (.joint hand) missing
    obtain ⟨⟨alternatives, follow⟩, hr, halternatives⟩ :=
      hmore.takes hrest ⟨skipSpace v, Combinator.and.expected⟩
    obtain rfl : alternatives = a :: as := halternatives
    refine ⟨.join t .and ⟨a :: as, follow⟩, readAlternatives_takes_iff.2 ?_, rfl⟩
    exact ⟨t, more, u, hread, .inr ⟨.and, v, _, combinator?_skipSpace_eq_some.2 hand, hr, rfl⟩⟩
  | _, _, _, @Alternatives.or t as s u v rest h hor hmore, hrest, missing => by
    obtain ⟨more, hread⟩ := h.takes (.joint hor) missing
    obtain ⟨r, hr, rfl⟩ := hmore.takes hrest ⟨skipSpace v, Combinator.or.expected⟩
    refine ⟨r.join t .or, readAlternatives_takes_iff.2 ?_, rfl⟩
    exact ⟨t, more, u, hread, .inr ⟨.or, v, r, combinator?_skipSpace_eq_some.2 hor, hr, rfl⟩⟩

end

/-! ## Whole texts -/

/-- A text is read as a tree of clauses exactly if it is that tree laid out. -/
theorem readClauses_eq_ok {missing : Stuck} {s : List Char} {t : Node Clause} :
    readClauses missing (skipSpace s) = .ok t ↔ LaidOut t s := by
  constructor
  · intro h
    obtain ⟨⟨r, rest, hlt⟩, hread, h⟩ := bind_eq_ok_iff.1 h
    dsimp only at h
    split at h
    · next hrest =>
      cases h
      have hr := readAlternatives_sound ⟨hlt, hread⟩
      exact ⟨r.alternatives, rest, rfl, hr.of_blanks (blanks_skipSpace s),
        (skipSpace_eq_iff.1 hrest).1⟩
    · cases h
  · rintro ⟨alternatives, rest, rfl, h, hrest⟩
    obtain ⟨r, ⟨hlt, hread⟩, rfl⟩ := h.takes (.stop hrest) missing
    refine bind_eq_ok_iff.2 ⟨_, hread, ?_⟩
    dsimp only
    rw [skipSpace_eq_iff.2 ⟨hrest, stops_nil⟩]
    rfl

/-- The grammar is unambiguous: a text is at most one tree laid out. -/
theorem LaidOut.unique {t u : Node Clause} {s : List Char} (ht : LaidOut t s) (hu : LaidOut u s) :
    t = u := by
  have hread : readClauses ⟨[], []⟩ (skipSpace s) = .ok t := readClauses_eq_ok.2 ht
  rw [readClauses_eq_ok.2 hu] at hread
  exact (Except.ok.inj hread).symm

theorem LaidOut.not_blank {t : Node Clause} {whole : List Char} (h : LaidOut t whole) :
    ¬ Blanks whole [] := by
  intro hblank
  have hread : readClauses ⟨[], []⟩ (skipSpace whole) = .ok t := readClauses_eq_ok.2 h
  rw [skipSpace_eq_iff.2 ⟨hblank, stops_nil⟩, readClauses, readAlternatives.eq_def,
    readConstraint.eq_def] at hread
  cases hread

theorem readChars_of_laidOut {t : Node Clause} {whole : List Char} (h : LaidOut t whole) :
    readChars whole = t.traverse (Clause.resolve whole) := by
  unfold readChars
  split
  · next hs => exact absurd (skipSpace_eq_iff.1 hs).1 h.not_blank
  · rw [readClauses_eq_ok.2 h]

theorem readChars_of_blank {whole : List Char} (h : Blanks whole []) :
    readChars whole = .ok unrestricted := by
  rw [readChars, skipSpace_eq_iff.2 ⟨h, stops_nil⟩]

/-- A text that is neither blank nor any tree laid out is refused for where the reader got stuck. -/
theorem readChars_of_not_laidOut {whole : List Char} (hblank : ¬ Blanks whole [])
    (h : ∀ t, ¬ LaidOut t whole) : ∃ e : Stuck, readChars whole = .error (e.toError whole) := by
  unfold readChars
  split
  · next hs => exact absurd (skipSpace_eq_iff.1 hs).1 hblank
  · split
    · next e _ => exact ⟨e, rfl⟩
    · next t hread => exact absurd (readClauses_eq_ok.1 hread) (h t)

end RecordFilter.Filter

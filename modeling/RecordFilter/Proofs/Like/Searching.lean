import RecordFilter.Proofs.Like.Globs

/-!
# Searching for a text

A text is searched for by a pattern of wildcards around it, with its own asterisks escaped
(`searchPattern`). There is no escape for backslashes, and none is needed inside the text: a
backslash there is never followed by an asterisk without one of its own. But a backslash at the end
takes the closing wildcard for its asterisk, so such a text is not searched for
(`searchPattern_accepts`).
-/

namespace RecordFilter.Like

open Text

variable {s t : List Char} {c : Char} {l : Like}

/-- The pattern of a text: its asterisks behind backslashes, and wildcards around it. -/
def searchPattern (s : List Char) : List Char :=
  wildcard :: (s.flatMap (hidden escapedWildcard) ++ [wildcard])

theorem pieces_wildcard (s : List Char) : pieces (wildcard :: s) = .wild :: pieces s := by
  rw [wildcard, pieces]
  · rfl
  · intro t ht
    simp at ht

theorem pieces_escapedWildcard (s : List Char) :
    pieces (escapedWildcard ++ s) = .only wildcard :: pieces s := by
  show pieces ('\\' :: '*' :: s) = _
  rw [pieces]
  rfl

theorem pieces_cons_of_ne (hc : c ≠ wildcard) (hs : c = '\\' → s.head? ≠ some wildcard) :
    pieces (c :: s) = .only c :: pieces s := by
  rw [pieces, if_neg hc]
  rintro t rfl rfl
  exact hs rfl rfl

/-- The pieces of a text with escaped asterisks are its characters, but a backslash at the end does
not stand for itself before an asterisk. -/
theorem pieces_flatMap_hidden (h : s.getLast? = some '\\' → t.head? ≠ some wildcard) :
    pieces (s.flatMap (hidden escapedWildcard) ++ t) = s.map .only ++ pieces t := by
  induction s with
  | nil => rfl
  | cons c s ih =>
    have hlast : s.getLast? = some '\\' → t.head? ≠ some wildcard := by
      intro hs
      exact h (by simp [List.getLast?_cons, hs])
    rw [List.flatMap_cons, List.append_assoc, hidden]
    split
    · next hc =>
      rw [pieces_escapedWildcard, ih hlast, hc]
      rfl
    · next hc =>
      have hhead : c = '\\' →
          (s.flatMap (hidden escapedWildcard) ++ t).head? ≠ some wildcard := by
        rintro rfl
        cases s with
        | nil => exact h rfl
        | cons d s =>
          by_cases hd : d = wildcard
          · simp [hidden, hd, escapedWildcard, wildcard]
          · simp [hidden, hd]
      rw [List.singleton_append, pieces_cons_of_ne hc hhead, ih hlast]
      rfl

theorem pieces_searchPattern (h : s.getLast? ≠ some '\\') :
    pieces (searchPattern s) = outer 1 s 1 := by
  rw [searchPattern, pieces_wildcard, pieces_flatMap_hidden fun hs => absurd hs h]
  rfl

/-- A backslash at the end escapes the closing wildcard. -/
theorem pieces_searchPattern_backslash (s : List Char) :
    pieces (searchPattern (s ++ ['\\'])) = outer 1 (s ++ ['*']) 0 := by
  have hclosing : (s ++ ['\\']).flatMap (hidden escapedWildcard) ++ [wildcard] =
      s.flatMap (hidden escapedWildcard) ++ escapedWildcard := by
    rw [List.flatMap_append, List.append_assoc]
    rfl
  rw [searchPattern, hclosing, pieces_wildcard, pieces_flatMap_hidden fun _ => by decide]
  simp [outer, escapedWildcard, wildcard, pieces]

/-- A wildcard at the beginning makes the reading the pieces themselves. -/
theorem reading_of_outer {pattern literal : List Char} {i j : ℕ}
    (h : pieces pattern = outer (i + 1) literal j) :
    reading pattern = outer (i + 1) literal j := by
  rw [reading, if_pos, h]
  rw [h, outer, List.replicate_succ]
  exact List.mem_cons_self

/-- **A text is searched for by its pattern**, unless it ends in a backslash: then the pattern asks
for an asterisk in place of that backslash, and for nothing behind it. -/
theorem searchPattern_accepts (s : List Char) :
    (∀ d : Draws, Reduces (searchPattern s) (ofPattern (searchPattern s) d).1) ∧
    ∀ l, Reduces (searchPattern s) l →
      (s.getLast? ≠ some '\\' → ∀ t, l.accepts t = true ↔ s <:+: t) ∧
      ∀ r, s = r ++ ['\\'] → ∀ t, l.accepts t = true ↔ r ++ ['*'] <:+ t := by
  refine ⟨fun d => reduces_read d _, fun l hl => ⟨fun hlast t => ?_, ?_⟩⟩
  · have hpieces := pieces_searchPattern hlast
    rw [hl.eq hpieces, reading_of_outer hpieces, placeOf_outer_both]
    exact occurs_iff
  · rintro r rfl t
    have hpieces := pieces_searchPattern_backslash r
    rw [hl.eq hpieces, reading_of_outer hpieces, placeOf_outer_before (by simp)]
    exact List.isSuffixOf_iff_suffix

/-- A text with a backslash before an asterisk. -/
theorem searchPattern_accepts_escaped :
    let s := ['\\', '*']
    let l := (ofPattern (searchPattern s) (.counted 0)).1
    searchPattern s = ['*', '\\', '\\', '*', '*'] ∧ s.getLast? ≠ some '\\' ∧
      Reduces (searchPattern s) l ∧ l.accepts ['a', '\\', '*', 'b'] = true ∧
      l.accepts ['a', '\\', 'b'] = false := by
  intro s l
  have hlast : s.getLast? ≠ some '\\' := by decide
  obtain ⟨hreduces, haccepts⟩ := searchPattern_accepts s
  have hiff := (haccepts l (hreduces _)).1 hlast
  refine ⟨rfl, hlast, hreduces _, (hiff _).2 (by decide), ?_⟩
  rw [← Bool.not_eq_true, hiff]
  decide

/-- **A text that ends in a backslash is not searched for**: a text that contains it is not
accepted. -/
theorem searchPattern_misses :
    let s := ['a', '\\']
    let t := ['a', '\\', 'b']
    searchPattern s = ['*', 'a', '\\', '*'] ∧ s <:+: t ∧
      ∀ l, Reduces (searchPattern s) l → l.accepts t = false := by
  intro s t
  refine ⟨rfl, ⟨[], ['b'], rfl⟩, fun l hl => ?_⟩
  have hpieces : pieces (searchPattern s) = outer 1 ['a', '*'] 0 := by decide
  rw [hl.eq hpieces, reading_of_outer hpieces, placeOf_outer_before (by simp)]
  decide

end RecordFilter.Like

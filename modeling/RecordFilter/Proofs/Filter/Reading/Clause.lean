import RecordFilter.Proofs.Filter.Layout

/-!
# Reading comparisons

The readers of argument lists and of comparisons agree with the grammar. What they take is written
there (`readComparison_sound`), and where a comparison is written they take exactly that one
(`readComparison_complete`). The second direction needs to know what follows: the readers take the
longest token at every step, and only a text that goes on as the grammar wants it keeps them from
taking more. What can follow a constraint is `Follows`.
-/

namespace RecordFilter.Filter

open Text

/-! ## Arguments -/

/-- An argument begins with a quote or with a word character. -/
theorem Literal.Matches.exists_cons {l : Literal} (h : l.Matches) :
    ∃ c w, l.text.toList = c :: w ∧ (c = '\'' ∨ c = '"' ∨ isWordChar c = true) := by
  rcases l.unquoted_or_quoted with hl | ⟨text, rfl⟩
  · obtain ⟨hne, hrun⟩ := h.isWord hl
    obtain ⟨c, w, hw⟩ := List.exists_cons_of_ne_nil hne
    exact ⟨c, w, hw, .inr (.inr (hrun c (hw ▸ List.mem_cons_self)))⟩
  · obtain ⟨quote, body, rfl | rfl, -, htext⟩ := h
    · exact ⟨_, _, htext, .inl rfl⟩
    · exact ⟨_, _, htext, .inr (.inl rfl)⟩

theorem Literal.Matches.stops {p : Char → Bool} {l : Literal} {rest : List Char} (h : l.Matches)
    (hword : ∀ c, isWordChar c = true → p c = false) (hsingle : p '\'' = false)
    (hdouble : p '"' = false) : Stops p (l.text.toList ++ rest) := by
  obtain ⟨c, w, hw, hc⟩ := h.exists_cons
  rw [hw]
  refine stops_cons.2 ?_
  rcases hc with rfl | rfl | hc
  · exact hsingle
  · exact hdouble
  · exact hword c hc

/-- Where an argument stands after blanks, it is found, if it cannot go on. -/
theorem literal?_skipSpace {l : Literal} {s rest : List Char} (hl : l.Matches)
    (hs : Blanks s (l.text.toList ++ rest)) (hrest : l.Unquoted → Stops isWordChar rest) :
    literal? (skipSpace s) = some (l, rest) := by
  rw [skipSpace_eq_iff.2 ⟨hs, hl.stops isSpace_eq_false_of_isWordChar rfl rfl⟩]
  exact literal?_eq_some.2 ⟨hl, rfl, hrest⟩

theorem readArguments_of_literal {fallback : Stuck} {s t : List Char} {l : Literal}
    (h : literal? (skipSpace s) = some (l, t)) :
    readArguments fallback s =
      match skipSpace t with
      | ')' :: after => .ok ([l], after)
      | ',' :: more => do
        let (ls, after) ← readArguments (stuckAtArgument fallback (skipSpace s) l) more
        .ok (l :: ls, after)
      | _ => .error (stuckAtArgument fallback (skipSpace s) l) := by
  rw [readArguments]
  split
  · next h' => rw [h] at h'; cases h'
  · next h' =>
    rw [h] at h'
    cases h'
    split <;> simp_all

/-- An argument list is read exactly if it is one, whatever the failure would have been. -/
theorem readArguments_eq_ok {fallback : Stuck} {s rest : List Char} {ls : List Literal} :
    readArguments fallback s = .ok (ls, rest) ↔ (∀ l ∈ ls, l.Matches) ∧ ArgumentList ls s rest := by
  constructor
  · intro h
    fun_induction readArguments fallback s generalizing ls with
    | case1 => cases h
    | case2 fallback s l t hl after ht =>
      cases h
      obtain ⟨hl, hsplit, -⟩ := literal?_eq_some.1 hl
      obtain ⟨ht, -⟩ := skipSpace_eq_iff.1 ht
      refine ⟨List.forall_mem_singleton.2 hl, .last ?_ ht⟩
      exact hsplit ▸ blanks_skipSpace s
    | case3 fallback s l t hl u ht ih =>
      obtain ⟨⟨ls', after⟩, hls, he⟩ := bind_eq_ok_iff.1 h
      cases he
      obtain ⟨hmatches, hls⟩ := ih hls
      obtain ⟨hl, hsplit, -⟩ := literal?_eq_some.1 hl
      obtain ⟨ht, -⟩ := skipSpace_eq_iff.1 ht
      refine ⟨List.forall_mem_cons.2 ⟨hl, hmatches⟩, .more ?_ ht hls⟩
      exact hsplit ▸ blanks_skipSpace s
    | case4 => cases h
  · rintro ⟨hmatches, h⟩
    induction h generalizing fallback with
    | last hl hclose =>
      -- a word in a list ends where the list goes on or ends
      have hstops := hclose.stops isWordChar_eq_false_of_isSpace (stops_cons.2 rfl)
      have hliteral := literal?_skipSpace (List.forall_mem_singleton.1 hmatches) hl fun _ => hstops
      have hnext := skipSpace_eq_iff.2 ⟨hclose, stops_cons.2 rfl⟩
      rw [readArguments_of_literal hliteral, hnext]
      rfl
    | more hl hcomma _ ih =>
      obtain ⟨hmatch, hmatches⟩ := List.forall_mem_cons.1 hmatches
      have hstops := hcomma.stops isWordChar_eq_false_of_isSpace (stops_cons.2 rfl)
      have hliteral := literal?_skipSpace hmatch hl fun _ => hstops
      have hnext := skipSpace_eq_iff.2 ⟨hcomma, stops_cons.2 rfl⟩
      rw [readArguments_of_literal hliteral, hnext]
      simp only [ih hmatches]
      rfl

/-! ## What follows a constraint -/

/-- A combinator begins with its sign or with a word character. -/
theorem Combinator.SpelledBefore.stops {p : Char → Bool} {c : Combinator} {w rest : List Char}
    (h : c.SpelledBefore w rest) (hword : ∀ c, isWordChar c = true → p c = false)
    (hsign : p c.sign = false) : Stops p (w ++ rest) := by
  rcases h with rfl | ⟨hw, -⟩
  · exact stops_cons.2 hsign
  · cases w with
    | nil => exact absurd hw.symm c.word_ne_nil
    | cons x w => exact stops_cons.2 (hword x (run_of_lower_eq_word hw x List.mem_cons_self))

theorem Combinator.SpelledBefore.stops_isSpace {c : Combinator} {w rest : List Char}
    (h : c.SpelledBefore w rest) : Stops isSpace (w ++ rest) :=
  h.stops isSpace_eq_false_of_isWordChar (by cases c <;> rfl)

theorem combinator?_skipSpace_eq_some {c : Combinator} {s rest : List Char} :
    combinator? (skipSpace s) = some (c, rest) ↔ Joint c s rest := by
  rw [combinator?_eq_some]
  constructor
  · rintro ⟨w, hw, hs⟩
    exact ⟨w, hw, hs ▸ blanks_skipSpace s⟩
  · rintro ⟨w, hw, hs⟩
    exact ⟨w, hw, skipSpace_eq_iff.2 ⟨hs, hw.stops_isSpace⟩⟩

/-- What can follow a constraint: the end of the text, the end of a group, or a combinator. -/
inductive Follows : List Char → Prop
  | stop {s : List Char} (h : Blanks s []) : Follows s
  | closing {s t : List Char} (h : Blanks s (')' :: t)) : Follows s
  | joint {c : Combinator} {s t : List Char} (h : Joint c s t) : Follows s

/-! ## Optional arguments -/

theorem readOptionalArguments_of_ne {s : List Char} (h : ∀ t, s ≠ '(' :: t) :
    readOptionalArguments s =
      match combinator? s, literal? s with
      | none, some (l, rest) => .ok ([l], rest)
      | _, _ => .ok ([], s) := by
  unfold readOptionalArguments
  split
  · next t => exact absurd rfl (h t)
  · rfl

theorem readOptionalArguments_sound {s rest : List Char} {ls : List Literal}
    (h : readOptionalArguments (skipSpace s) = .ok (ls, rest)) :
    (∀ l ∈ ls, l.Matches) ∧ Arguments ls s rest := by
  unfold readOptionalArguments at h
  split at h
  · next t hs =>
    obtain ⟨hmatches, hls⟩ := readArguments_eq_ok.1 h
    exact ⟨hmatches, .list (hs ▸ blanks_skipSpace s) hls⟩
  · split at h
    · next l t hcombinator hliteral =>
      cases h
      obtain ⟨hmatches, hsplit, hstops⟩ := literal?_eq_some.1 hliteral
      refine ⟨List.forall_mem_singleton.2 hmatches, .one (hsplit ▸ blanks_skipSpace s) ⟨hstops, ?_⟩⟩
      intro c hc
      rw [← Bool.not_eq_true]
      intro hend
      -- otherwise the argument would have been taken for the combinator
      rw [combinator?_eq_some.2 ⟨_, .inr ⟨hc, hend⟩, hsplit⟩] at hcombinator
      cases hcombinator
    · cases h
      exact ⟨nofun, .none (blanks_skipSpace s) (stops_skipSpace s)⟩

theorem Literal.StandsAlone.combinator?_eq_none {l : Literal} {rest : List Char}
    (h : l.StandsAlone rest) (hl : l.Matches) : combinator? (l.text.toList ++ rest) = none := by
  obtain ⟨hstops, hkeyword⟩ := h
  rcases l.unquoted_or_quoted with hquoted | ⟨text, rfl⟩
  · obtain ⟨hne, hrun⟩ := hl.isWord hquoted
    exact (combinator?_word_eq_none hne hrun (hstops hquoted)).2 hkeyword
  · obtain ⟨quote, body, hquote, -, htext⟩ := hl
    rw [Literal.text, htext]
    rcases hquote with rfl | rfl
    · exact combinator?_cons_eq_none rfl fun c => by cases c <;> decide
    · exact combinator?_cons_eq_none rfl fun c => by cases c <;> decide

theorem readOptionalArguments_complete {s rest : List Char} {ls : List Literal}
    (h : Arguments ls s rest) (hls : ∀ l ∈ ls, l.Matches) (hrest : Follows rest) :
    readOptionalArguments (skipSpace s) = .ok (ls, rest) := by
  cases h with
  | none hs hstops =>
    rw [skipSpace_eq_iff.2 ⟨hs, hstops⟩]
    -- the blanks are skipped, so what follows stands at the head of the text
    cases hrest with
    | stop h =>
      obtain rfl := hstops.dropWhile_eq.symm.trans (skipSpace_eq_iff.2 ⟨h, stops_nil⟩)
      rfl
    | closing h =>
      obtain rfl := hstops.dropWhile_eq.symm.trans (skipSpace_eq_iff.2 ⟨h, stops_cons.2 rfl⟩)
      rw [readOptionalArguments_of_ne (by rintro u ⟨⟩)]
      split
      · next hliteral => cases hliteral
      · rfl
    | joint h =>
      have hcombinator := combinator?_skipSpace_eq_some.2 h
      rw [skipSpace, hstops.dropWhile_eq] at hcombinator
      rw [readOptionalArguments_of_ne]
      · simp only [hcombinator]
      · rintro t rfl
        rw [combinator?_cons_eq_none rfl fun c => by cases c <;> decide] at hcombinator
        cases hcombinator
  | one hl halone =>
    have hmatches := List.forall_mem_singleton.1 hls
    rw [skipSpace_eq_iff.2 ⟨hl, hmatches.stops isSpace_eq_false_of_isWordChar rfl rfl⟩,
      readOptionalArguments_of_ne]
    · rw [halone.combinator?_eq_none hmatches, literal?_eq_some.2 ⟨hmatches, rfl, halone.1⟩]
    · -- no argument begins with a parenthesis
      intro t heq
      have hopening : Stops (· == '(') (_ ++ rest) :=
        hmatches.stops (beq_eq_false_of_isWordChar rfl) rfl rfl
      rw [heq] at hopening
      cases stops_cons.1 hopening
  | list hopen hlist =>
    rw [skipSpace_eq_iff.2 ⟨hopen, stops_cons.2 rfl⟩]
    exact readArguments_eq_ok.2 ⟨hls, hlist⟩

/-! ## Comparisons -/

/-- No equals sign stands behind a comparator. -/
theorem Arguments.stops_equals {ls : List Literal} {s rest : List Char} (h : Arguments ls s rest)
    (hls : ∀ l ∈ ls, l.Matches) (hrest : Follows rest) : Stops (· == '=') s := by
  have hword := beq_eq_false_of_isWordChar (x := '=') rfl
  have hspace : ∀ c, isSpace c = true → (c == '=') = false := by
    intro c hc
    rw [beq_eq_false_iff_ne]
    rintro rfl
    cases hc
  cases h with
  | none hs _ =>
    refine hs.stops hspace ?_
    cases hrest with
    | stop h => exact h.stops hspace stops_nil
    | closing h => exact h.stops hspace (stops_cons.2 rfl)
    | @joint c _ _ h =>
      obtain ⟨w, hw, h⟩ := h
      exact h.stops hspace (hw.stops hword (by cases c <;> rfl))
  | one hl _ => exact hl.stops hspace ((List.forall_mem_singleton.1 hls).stops hword rfl rfl)
  | list hopen _ => exact hopen.stops hspace (stops_cons.2 rfl)

/-- A comparator begins with a character that operators are made of. -/
theorem IsComparator.stops {p : Char → Bool} {token rest : List Char} (h : IsComparator token)
    (hequals : p '=' = false) (hnot : p '!' = false) (hless : p '<' = false)
    (hgreater : p '>' = false) : Stops p (token ++ rest) := by
  rcases h with ⟨name, -, -, rfl⟩ | hsymbol
  · exact stops_cons.2 hequals
  · simp only [symbols, List.mem_cons, List.not_mem_nil, or_false] at hsymbol
    rcases hsymbol with rfl | rfl | rfl | rfl | rfl | rfl
    · exact stops_cons.2 hequals
    · exact stops_cons.2 hnot
    · exact stops_cons.2 hless
    · exact stops_cons.2 hgreater
    · exact stops_cons.2 hless
    · exact stops_cons.2 hgreater

theorem readComparison_sound {c : Char} {s rest : List Char} {k : Clause}
    (hc : isSelectorStart c = true) (h : readComparison c s = .ok (k, rest)) :
    k.Written (c :: s) rest := by
  dsimp only [readComparison] at h
  split at h
  · cases h
  · next token u hcomparator =>
    obtain ⟨⟨ls, stop⟩, hread, he⟩ := bind_eq_ok_iff.1 h
    cases he
    obtain ⟨htoken, hu, -⟩ := comparator?_eq_some.1 hcomparator
    obtain ⟨hmatches, hls⟩ := readOptionalArguments_sound hread
    refine ⟨⟨⟨c, _, rfl, hc, run_takeWhile⟩, htoken, hmatches⟩, s.dropWhile isSelectorChar, u,
      .refl, ?_, blanks_skipSpace _, hu, hls, rfl⟩
    rw [List.cons_append, List.takeWhile_append_dropWhile]

theorem readComparison_complete {k : Clause} {s rest : List Char} (h : k.Written s rest)
    (hrest : Follows rest) :
    ∃ c t, skipSpace s = c :: t ∧ isSelectorStart c = true ∧
      readComparison c t = .ok (k, rest) := by
  obtain ⟨⟨⟨c, w, hselector, hc, hw⟩, htoken, hmatches⟩, t, u, hs, hstart, ht, htokenStart, hls,
    hstop⟩ := h
  rw [hselector, List.cons_append] at hstart
  have hskip : skipSpace s = c :: (w ++ t) := by
    rw [hstart] at hs
    exact skipSpace_eq_iff.2 ⟨hs, stops_cons.2 (isSpace_eq_false_of_isSelectorStart hc)⟩
  -- each token is as long as it can be: blanks or a comparator follow the selector
  have htstops : Stops isSelectorChar t := by
    rw [htokenStart] at ht
    exact ht.stops isSelectorChar_eq_false_of_isSpace (htoken.stops rfl rfl rfl rfl)
  obtain ⟨htake, hdrop⟩ := Prod.mk.inj (splitWhile_eq_iff.2 ⟨hw, rfl, htstops⟩)
  have htskip : skipSpace t = k.tokenStart := by
    rw [htokenStart] at ht ⊢
    exact skipSpace_eq_iff.2 ⟨ht, htoken.stops rfl rfl rfl rfl⟩
  have hcomparator : comparator? k.tokenStart = some (k.token, u) :=
    comparator?_eq_some.2 ⟨htoken, htokenStart, fun _ => hls.stops_equals hmatches hrest⟩
  have hread := readOptionalArguments_complete hls hmatches hrest
  refine ⟨c, w ++ t, hskip, hc, ?_⟩
  simp only [readComparison, htake, hdrop, htskip, hcomparator, hread]
  rw [← hselector, ← hstart, ← hstop]
  rfl

end RecordFilter.Filter

import RecordFilter.Proofs.Compile.Quoted

/-!
# Displayed texts

A text is displayed between quotes, with a backslash before every quote but none before a backslash
of its own. The readers of filters take such a backslash for an escape, together with the character
that is displayed behind it.

* The display is one quoted argument unless a backslash takes the backslash of an escaped quote or
  the closing quote with it, that is, if every run of backslashes there has an even length
  (`quotedBody_escapeQuotes_iff`).
* Taking the quotes off gives the text with every two backslashes in a row made one
  (`unescape_escapeQuotes`).

So a text is read back if its backslashes are apart from each other, from quotes and from its end,
and no other text is (`display_reads_back_iff`).
-/

namespace RecordFilter

open RecordFilter.Filter Value

variable {c : Char} {s : List Char}

/-! ## The value -/

/-- The text with every two backslashes in a row made one. -/
def mergeBackslashes : List Char → List Char
  | [] => []
  | '\\' :: '\\' :: s => '\\' :: mergeBackslashes s
  | c :: s => c :: mergeBackslashes s

theorem Value.escapeQuotes_cons (hc : c ≠ '\'') (s : List Char) :
    escapeQuotes (c :: s) = c :: escapeQuotes s := by
  rw [escapeQuotes, List.flatMap_cons, if_neg hc]
  rfl

theorem Value.escapeQuotes_quote (s : List Char) :
    escapeQuotes ('\'' :: s) = '\\' :: '\'' :: escapeQuotes s := rfl

theorem unescape_escapeQuotes (s : List Char) :
    unescape '\'' (escapeQuotes s) = mergeBackslashes s := by
  fun_induction mergeBackslashes s with
  | case1 => rfl
  | case2 s ih => exact congrArg ('\\' :: ·) ih
  | case3 c s hpair ih =>
    by_cases hquote : c = '\''
    · subst hquote
      exact congrArg ('\'' :: ·) ih
    by_cases hc : c = '\\'
    · subst hc
      -- the backslash is left as it is, whatever stands behind it
      cases s with
      | nil => rfl
      | cons d s =>
        have hd : d ≠ '\\' := fun hd => hpair s rfl (by rw [hd])
        by_cases hdquote : d = '\''
        · subst hdquote
          rw [← ih]
          rfl
        · rw [← ih, escapeQuotes_cons (by decide), escapeQuotes_cons hdquote, unescape,
            if_neg (not_or.2 ⟨hdquote, hd⟩)]
    · rw [escapeQuotes_cons hquote, unescape_cons hc, ih]

theorem length_mergeBackslashes_le (s : List Char) :
    (mergeBackslashes s).length ≤ s.length := by
  fun_induction mergeBackslashes s <;> simp_all
  omega

/-- Nothing is lost of a text without two backslashes in a row. -/
theorem mergeBackslashes_eq_self_iff : mergeBackslashes s = s ↔ ¬ ['\\', '\\'] <:+: s := by
  fun_induction mergeBackslashes s with
  | case1 => simp
  | case2 s ih =>
    refine iff_of_false (fun heq => ?_) fun h => h ⟨[], s, rfl⟩
    have hle := length_mergeBackslashes_le s
    rw [(List.cons.inj heq).2, List.length_cons] at hle
    omega
  | case3 c s hpair ih =>
    have hhead : ¬ ['\\', '\\'] <+: c :: s := by
      rintro ⟨t, ht⟩
      obtain ⟨rfl, hs⟩ := List.cons.inj ht
      exact hpair t rfl hs.symm
    rw [List.cons_inj_right, ih, List.infix_cons_iff, or_iff_right hhead]

/-! ## The token -/

/-- Every run of backslashes that stands before a quote or at the end has an even length. -/
def EvenRuns (s : List Char) : Prop :=
  ∀ before n after, s = before ++ (List.replicate n '\\' ++ after) →
    before.getLast? ≠ some '\\' → after = [] ∨ after.head? = some '\'' → Even n

theorem evenRuns_cons (hc : c ≠ '\\') : EvenRuns (c :: s) ↔ EvenRuns s := by
  have hlast (before : List Char) :
      (c :: before).getLast? ≠ some '\\' ↔ before.getLast? ≠ some '\\' := by
    cases before with
    | nil => simpa using hc
    | cons d before => rw [List.getLast?_cons_cons]
  constructor
  · intro h before n after hs hbefore hafter
    exact h (c :: before) n after (by rw [hs]; rfl) ((hlast before).2 hbefore) hafter
  · intro h before n after hs hbefore hafter
    cases before with
    | nil =>
      cases n with
      | zero => exact Even.zero
      | succ n => exact absurd (List.cons.inj hs).1 hc
    | cons d before =>
      obtain ⟨rfl, htail⟩ := List.cons.inj hs
      exact h before n after htail ((hlast before).1 hbefore) hafter

theorem evenRuns_pair : EvenRuns ('\\' :: '\\' :: s) ↔ EvenRuns s := by
  constructor
  · intro h before n after hs hbefore hafter
    cases before with
    | nil =>
      have heven := h [] (n + 2) after (by rw [hs]; rfl) nofun hafter
      simpa [Nat.even_add] using heven
    | cons d before =>
      exact h ('\\' :: '\\' :: d :: before) n after (by rw [hs]; rfl) hbefore hafter
  · intro h before n after hs hbefore hafter
    match before, n with
    | [], 0 => exact Even.zero
    | [], 1 =>
      obtain rfl : '\\' :: s = after := (List.cons.inj hs).2
      rcases hafter with hafter | hafter <;> cases hafter
    | [], n + 2 =>
      have heven := h [] n after (List.cons.inj (List.cons.inj hs).2).2 nofun hafter
      simpa [Nat.even_add] using heven
    | [d], n =>
      obtain ⟨rfl, -⟩ := List.cons.inj hs
      exact absurd rfl hbefore
    | [d, d'], n =>
      obtain ⟨-, htail⟩ := List.cons.inj hs
      obtain ⟨rfl, -⟩ := List.cons.inj htail
      exact absurd rfl hbefore
    | d :: d' :: d'' :: before, n =>
      exact h (d'' :: before) n after (List.cons.inj (List.cons.inj hs).2).2 hbefore hafter

/-- A backslash apart from the next one matters only before a quote. -/
theorem evenRuns_backslash {d : Char} (hd : d ≠ '\\') :
    EvenRuns ('\\' :: d :: s) ↔ d ≠ '\'' ∧ EvenRuns (d :: s) := by
  constructor
  · intro h
    refine ⟨?_, ?_⟩
    · rintro rfl
      exact Nat.not_even_one (h [] 1 ('\'' :: s) rfl nofun (.inr rfl))
    · intro before n after hs hbefore hafter
      cases before with
      | nil =>
        cases n with
        | zero => exact Even.zero
        | succ n => exact absurd (List.cons.inj hs).1 hd
      | cons e before =>
        exact h ('\\' :: e :: before) n after (by rw [hs]; rfl) hbefore hafter
  · rintro ⟨hquote, h⟩ before n after hs hbefore hafter
    match before, n with
    | [], 0 => exact Even.zero
    | [], 1 =>
      obtain rfl : d :: s = after := (List.cons.inj hs).2
      rcases hafter with hafter | hafter
      · cases hafter
      · exact absurd (Option.some.inj hafter) hquote
    | [], n + 2 => exact absurd (List.cons.inj (List.cons.inj hs).2).1 hd
    | [e], n =>
      obtain ⟨rfl, -⟩ := List.cons.inj hs
      exact absurd rfl hbefore
    | e :: e' :: before, n =>
      exact h (e' :: before) n after (List.cons.inj hs).2 hbefore hafter

theorem evenRuns_nil : EvenRuns [] := by
  intro before n after hs _ _
  obtain ⟨-, htail⟩ := List.append_eq_nil_iff.1 hs.symm
  obtain ⟨hn, -⟩ := List.append_eq_nil_iff.1 htail
  rw [(List.replicate_eq_nil_iff _).1 hn]
  exact Even.zero

theorem not_evenRuns_last : ¬ EvenRuns ['\\'] := fun h =>
  Nat.not_even_one (h [] 1 [] rfl nofun (.inl rfl))

theorem Filter.quotedBody_escaped_iff {quote : Char} :
    QuotedBody quote ('\\' :: c :: s) ↔ QuotedBody quote s := by
  constructor
  · intro h
    cases h with
    | plain _ hbackslash => exact absurd rfl hbackslash
    | escaped _ hs => exact hs
  · exact .escaped c

theorem Filter.quotedBody_plain_iff {quote : Char} (hc : c ≠ '\\') :
    QuotedBody quote (c :: s) ↔ c ≠ quote ∧ QuotedBody quote s := by
  constructor
  · intro h
    cases h with
    | plain hquote _ hs => exact ⟨hquote, hs⟩
    | escaped => exact absurd rfl hc
  · rintro ⟨hquote, hs⟩
    exact .plain hquote hc hs

/-- **No quote in the display ends it too early**, if the runs of backslashes are even. -/
theorem quotedBody_escapeQuotes_iff : QuotedBody '\'' (escapeQuotes s) ↔ EvenRuns s := by
  fun_induction mergeBackslashes s with
  | case1 => exact iff_of_true .nil evenRuns_nil
  | case2 s ih => exact quotedBody_escaped_iff.trans (ih.trans evenRuns_pair.symm)
  | case3 c s hpair ih =>
    by_cases hquote : c = '\''
    · subst hquote
      rw [escapeQuotes_quote, quotedBody_escaped_iff, ih, evenRuns_cons (by decide)]
    by_cases hc : c = '\\'
    · subst hc
      cases s with
      | nil =>
        refine iff_of_false (fun h => ?_) not_evenRuns_last
        cases h with
        | plain _ hbackslash => exact absurd rfl hbackslash
      | cons d s =>
        have hd : d ≠ '\\' := fun hd => hpair s rfl (by rw [hd])
        rw [evenRuns_backslash hd, ← ih, escapeQuotes_cons (by decide)]
        by_cases hdquote : d = '\''
        · -- the backslash takes the one of the escape, and the quote is left alone
          subst hdquote
          rw [escapeQuotes_quote, quotedBody_escaped_iff, quotedBody_plain_iff (by decide)]
          simp
        · rw [escapeQuotes_cons hdquote, quotedBody_escaped_iff, quotedBody_plain_iff hd]
          simp [hdquote]
    · rw [escapeQuotes_cons hquote, quotedBody_plain_iff hc, ih, evenRuns_cons hc,
        and_iff_right hquote]

theorem isQuoted_writeText_iff : IsQuoted (writeText s) ↔ EvenRuns s := by
  rw [← quotedBody_escapeQuotes_iff]
  constructor
  · rintro ⟨quote, body, -, hbody, heq⟩
    obtain ⟨rfl, htail⟩ := List.cons.inj heq
    rwa [List.append_cancel_right htail]
  · intro h
    exact ⟨'\'', _, .inl rfl, h, rfl⟩

/-! ## Texts that are read back -/

/-- Backslashes that are apart from each other make runs of one. -/
theorem evenRuns_iff_of_apart (h : ¬ ['\\', '\\'] <:+: s) :
    EvenRuns s ↔ ¬ ['\\', '\''] <:+: s ∧ ¬ ['\\'] <:+ s := by
  have hlast {before after : List Char} (hs : s = before ++ '\\' :: after) :
      before.getLast? ≠ some '\\' := by
    intro hbackslash
    obtain ⟨before', rfl⟩ := List.getLast?_eq_some_iff.1 hbackslash
    exact h ⟨before', after, by rw [hs]; simp⟩
  constructor
  · refine fun heven => ⟨?_, ?_⟩
    · rintro ⟨before, after, hs⟩
      have hs : s = before ++ '\\' :: '\'' :: after := by rw [← hs]; simp
      exact Nat.not_even_one (heven before 1 _ hs (hlast hs) (.inr rfl))
    · rintro ⟨before, hs⟩
      exact Nat.not_even_one (heven before 1 [] hs.symm (hlast hs.symm) (.inl rfl))
  · rintro ⟨hquote, hend⟩ before n after hs - hafter
    match n with
    | 0 => exact Even.zero
    | 1 =>
      cases after with
      | nil => exact absurd ⟨before, hs.symm⟩ hend
      | cons c after =>
        obtain rfl : c = '\'' := by simpa using hafter
        exact absurd ⟨before, after, by rw [hs]; simp⟩ hquote
    | n + 2 =>
      exact absurd ⟨before, List.replicate n '\\' ++ after, by
        rw [hs]
        simp [List.replicate_succ]⟩ h

/-- The display of a text, as a quoted argument. -/
def displayed (s : String) : Literal := .quoted (toString (Value.string s))

theorem isQuoted_displayed_iff {s : String} :
    IsQuoted (displayed s).text.toList ↔ EvenRuns s.toList := by
  rw [← isQuoted_writeText_iff, ← String.toList_ofList (l := writeText s.toList)]
  rfl

theorem coerce_displayed (s : String) :
    coerce .string [displayed s] =
      .ok (some [.string (String.ofList (mergeBackslashes s.toList))]) := by
  have hcontent : unquote (writeText s.toList) = mergeBackslashes s.toList := by
    rw [writeText, unquote, if_pos List.getLast?_concat, List.dropLast_concat,
      unescape_escapeQuotes]
  refine (coerce_eq_ok_iff rfl).2 (.cons ?_ .nil)
  rw [← hcontent, ← String.toList_ofList (l := writeText s.toList)]
  rfl

/-- **Which displayed texts are read back.** The display of a text is one quoted argument, whatever
stands behind it, if and only if its runs of backslashes before a quote and at the end are even. As
an argument of a text property it is the text with every two backslashes in a row made one, so it is
the text itself if there are none. Both hold if and only if no backslash of the text stands before
another one, before a quote or at the end. -/
theorem display_reads_back_iff (s : String) :
    (IsQuoted (displayed s).text.toList ↔ EvenRuns s.toList) ∧
    (∀ rest, literal? ((displayed s).text.toList ++ rest) = some (displayed s, rest) ↔
      IsQuoted (displayed s).text.toList) ∧
    coerce .string [displayed s] =
      .ok (some [.string (String.ofList (mergeBackslashes s.toList))]) ∧
    (coerce .string [displayed s] = .ok (some [.string s]) ↔ ¬ ['\\', '\\'] <:+: s.toList) ∧
    (IsQuoted (displayed s).text.toList ∧ coerce .string [displayed s] = .ok (some [.string s]) ↔
      ¬ ['\\', '\\'] <:+: s.toList ∧ ¬ ['\\', '\''] <:+: s.toList ∧
        ¬ ['\\'] <:+ s.toList) := by
  have hback : coerce .string [displayed s] = .ok (some [.string s]) ↔
      ¬ ['\\', '\\'] <:+: s.toList := by
    rw [coerce_displayed, ← mergeBackslashes_eq_self_iff]
    constructor
    · intro h
      have hsame : String.ofList (mergeBackslashes s.toList) = s := by simpa using h
      rw [← String.toList_ofList (l := mergeBackslashes s.toList), hsame]
    · intro h
      rw [h, String.ofList_toList]
  refine ⟨isQuoted_displayed_iff, fun rest => ?_, coerce_displayed s, hback, ?_⟩
  · rw [literal?_eq_some]
    exact ⟨fun h => h.1, fun h => ⟨h, rfl, fun hl => absurd rfl (hl _)⟩⟩
  · rw [isQuoted_displayed_iff, hback, and_comm]
    exact and_congr_right evenRuns_iff_of_apart

/-- A backslash alone takes the closing quote of its display with it, one before a quote lets that
end the display, and of two backslashes one is read back. -/
theorem display_not_read_back :
    ¬ IsQuoted (toString (Value.string "\\")).toList ∧
      ¬ IsQuoted (toString (Value.string "\\'")).toList ∧
      IsQuoted (toString (Value.string "\\\\")).toList ∧
      coerce .string [.quoted (toString (Value.string "\\\\"))] = .ok (some [.string "\\"]) := by
  refine ⟨fun h => not_evenRuns_last (isQuoted_displayed_iff.1 h), fun h => ?_,
    isQuoted_displayed_iff.2 (evenRuns_pair.2 evenRuns_nil), coerce_displayed "\\\\"⟩
  have hruns : EvenRuns ['\\', '\''] := isQuoted_displayed_iff.1 h
  exact ((evenRuns_backslash (by decide)).1 hruns).1 rfl

end RecordFilter

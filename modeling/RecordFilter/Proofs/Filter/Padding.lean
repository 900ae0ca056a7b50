import RecordFilter.Proofs.Filter.Places

/-!
# Blanks around filters

Blanks before a text do not matter, and neither do blanks behind it, but for one case
(`writes_padded_iff`). A text that ends in the word of a combinator, as the argument of a
comparison, is a filter: nothing follows the word, so it is no combinator. With a blank behind it
the word is one, and what it would join is missing.

Both directions are one induction. A layout is carried from one text to another if each of its parts
is (`Constraint.carry`), and the positions in the two texts correspond if what is left of them is
the same apart from blanks before it and the blanks at the end (`Padded`).
-/

namespace RecordFilter.Filter

open Text

/-! ## The last word of a text -/

/-- A text ends in the word of a combinator, in any letter case, behind a character that no word
contains. -/
def EndsInKeyword (s : List Char) : Prop :=
  ∃ head x word, s = head ++ x :: word ∧ isWordChar x = false ∧
    ∃ c : Combinator, lower word = c.word

theorem endsInKeyword_iff {head word : List Char} {x : Char} (hx : isWordChar x = false)
    (hword : Run isWordChar word) :
    EndsInKeyword (head ++ x :: word) ↔ ∃ c : Combinator, lower word = c.word := by
  constructor
  · rintro ⟨head', x', word', heq, hx', c, hc⟩
    -- from the end, both words are the longest run of word characters
    have hsplit := splitWhile_reverse (s := head) hword hx
    rw [heq, splitWhile_reverse (run_of_lower_eq_word hc) hx'] at hsplit
    obtain rfl := List.reverse_injective (Prod.mk.inj hsplit).1
    exact ⟨c, hc⟩
  · rintro ⟨c, hc⟩
    exact ⟨head, x, word, rfl, hx, c, hc⟩

theorem not_endsInKeyword_of_suffix {s : List Char} {x : Char} (hx : isWordChar x = false)
    (h : [x] <:+ s) : ¬ EndsInKeyword s := by
  obtain ⟨head, rfl⟩ := h
  rw [endsInKeyword_iff hx .nil]
  rintro ⟨c, hc⟩
  exact c.word_ne_nil hc.symm

/-- The character before a text that stands behind blanks is no word character if the one before the
blanks is none. -/
theorem Blanks.exists_before {s t : List Char} {x : Char} (h : Blanks s t)
    (hx : isWordChar x = false) : ∃ head y, x :: s = head ++ y :: t ∧ isWordChar y = false := by
  obtain ⟨w, hw, rfl⟩ := h
  by_cases hnil : w = []
  · rw [hnil]
    exact ⟨[], x, rfl, hx⟩
  · obtain ⟨v, y, rfl, hy⟩ := hw.exists_concat hnil
    exact ⟨x :: v, y, by simp, isWordChar_eq_false_of_isSpace y hy⟩

/-! ## The last characters of tokens -/

theorem IsComparator.exists_concat {token : List Char} (h : IsComparator token) :
    ∃ v x, token = v ++ [x] ∧ isWordChar x = false ∧ isSpace x = false := by
  rcases h with ⟨name, -, -, rfl⟩ | hsymbol
  · exact ⟨'=' :: name, '=', rfl, rfl, rfl⟩
  · simp only [symbols, List.mem_cons, List.not_mem_nil, or_false] at hsymbol
    rcases hsymbol with rfl | rfl | rfl | rfl | rfl | rfl
    · exact ⟨['='], '=', rfl, rfl, rfl⟩
    · exact ⟨['!'], '=', rfl, rfl, rfl⟩
    · exact ⟨['<'], '=', rfl, rfl, rfl⟩
    · exact ⟨['>'], '=', rfl, rfl, rfl⟩
    · exact ⟨[], '<', rfl, rfl, rfl⟩
    · exact ⟨[], '>', rfl, rfl, rfl⟩

/-- An argument is a word, or it ends in a quote. -/
theorem Literal.Matches.word_or_quote {l : Literal} (h : l.Matches) :
    IsWord l.text.toList ∨
      ∃ v x, l.text.toList = v ++ [x] ∧ isWordChar x = false ∧ isSpace x = false := by
  rcases l.unquoted_or_quoted with hl | ⟨text, rfl⟩
  · exact .inl (h.isWord hl)
  · obtain ⟨quote, body, hquote, -, htext⟩ := h
    refine .inr ⟨quote :: body, quote, htext, ?_⟩
    rcases hquote with rfl | rfl <;> exact ⟨rfl, rfl⟩

theorem Literal.Matches.exists_concat {l : Literal} (h : l.Matches) :
    ∃ v x, l.text.toList = v ++ [x] ∧ isSpace x = false := by
  rcases h.word_or_quote with ⟨hne, hrun⟩ | ⟨v, x, hv, -, hx⟩
  · obtain ⟨v, x, hv, hx⟩ := hrun.exists_concat hne
    exact ⟨v, x, hv, isSpace_eq_false_of_isWordChar x hx⟩
  · exact ⟨v, x, hv, hx⟩

/-- What stands in a text before blanks and ends in no blank stands there without them. -/
theorem exists_of_cons_suffix_append {s w rest : List Char} {x : Char} (hw : Run isSpace w)
    (hx : isSpace x = false) (h : x :: rest <:+ s ++ w) :
    ∃ r, rest = r ++ w ∧ x :: r <:+ s := by
  have hnot : x ∉ w := by
    intro hmem
    rw [hw x hmem] at hx
    cases hx
  obtain ⟨head, h⟩ := h
  rcases List.append_eq_append_iff.1 h with ⟨_ | ⟨y, r⟩, rfl, hrest⟩ | ⟨v, -, rfl⟩
  · rw [List.nil_append] at hrest
    exact absurd (hrest ▸ List.mem_cons_self) hnot
  · obtain ⟨rfl, rfl⟩ := List.cons.inj hrest
    exact ⟨r, rfl, List.suffix_append head _⟩
  · exact absurd (List.mem_append_right v List.mem_cons_self) hnot

/-! ## Clauses -/

section Clauses

variable {w whole u rest : List Char} {x : Char} {ls : List Literal}

/-- An argument at the end of a text stands alone before blanks unless it is a word of a
combinator. -/
theorem Literal.Matches.standsAlone_iff {l : Literal} (hl : l.Matches) (hw : Run isSpace w)
    (hx : isWordChar x = false) (hs : Blanks u l.text.toList) (hwhole : x :: u <:+ whole) :
    l.StandsAlone w ↔ w = [] ∨ ¬ EndsInKeyword whole := by
  obtain ⟨before, rfl⟩ := hwhole
  obtain ⟨head, y, hu, hy⟩ := hs.exists_before hx
  rw [hu, ← List.append_assoc]
  have hkeyword : EndsInKeyword (before ++ head ++ y :: l.text.toList) ↔
      ∃ c : Combinator, lower l.text.toList = c.word := by
    rcases hl.word_or_quote with ⟨-, hrun⟩ | ⟨v, q, hv, hq, -⟩
    · exact endsInKeyword_iff hy hrun
    · refine iff_of_false (not_endsInKeyword_of_suffix hq ?_) ?_
      · rw [hv]
        exact ⟨before ++ head ++ y :: v, by simp⟩
      · rintro ⟨c, hc⟩
        have hrun := run_of_lower_eq_word hc q (by simp [hv])
        rw [hq] at hrun
        cases hrun
  rw [hkeyword]
  cases w with
  | nil => exact iff_of_true ⟨fun _ => stops_nil, fun _ _ => rfl⟩ (.inl rfl)
  | cons b w =>
    have hb := hw b List.mem_cons_self
    have hend : endsKeyword (b :: w) = true := by rw [endsKeyword, hb, Bool.true_or]
    constructor
    · rintro ⟨-, halone⟩
      refine .inr ?_
      rintro ⟨c, hc⟩
      rw [halone c hc] at hend
      cases hend
    · intro h
      have hnone := h.resolve_left (List.cons_ne_nil b w)
      exact ⟨fun _ => stops_cons.2 (isWordChar_eq_false_of_isSpace b hb),
        fun c hc => absurd ⟨c, hc⟩ hnone⟩

theorem Arguments.pad (h : Arguments ls u rest) (hls : ∀ l ∈ ls, l.Matches) (hw : Run isSpace w)
    (hx : isWordChar x = false) (hwhole : x :: u <:+ whole)
    (hkept : w = [] ∨ ¬ EndsInKeyword whole) :
    ∃ r, Arguments ls (u ++ w) r ∧ Blanks (rest ++ w) r := by
  cases h with
  | none hs _ =>
    -- the blanks belong to a comparison without arguments
    exact ⟨skipSpace (rest ++ w), .none ((hs.append w).trans (blanks_skipSpace _))
      (stops_skipSpace _), blanks_skipSpace _⟩
  | @one l _ _ hl halone =>
    have hblanks := hl.append w
    rw [List.append_assoc] at hblanks
    refine ⟨rest ++ w, .one hblanks ?_, .refl⟩
    cases rest with
    | nil =>
      rw [List.append_nil] at hl
      exact ((List.forall_mem_singleton.1 hls).standsAlone_iff hw hx hl hwhole).2 hkept
    | cons c rest => exact ⟨fun hl => stops_cons.2 (stops_cons.1 (halone.1 hl)), halone.2⟩
  | list hopen hlist => exact ⟨rest ++ w, .list (hopen.append w) (hlist.append w), .refl⟩

theorem Arguments.unpad (h : Arguments ls (u ++ w) rest) (hls : ∀ l ∈ ls, l.Matches)
    (hw : Run isSpace w) (hx : isWordChar x = false) (hwhole : x :: u <:+ whole) :
    ∃ r, Arguments ls u r ∧ Blanks (r ++ w) rest ∧
      (r = [] → w = [] ∨ ¬ EndsInKeyword whole) := by
  cases h with
  | none hs hstops =>
    have hrest : skipSpace (u ++ w) = rest := skipSpace_eq_iff.2 ⟨hs, hstops⟩
    rw [((blanks_skipSpace u).append w).skipSpace_eq] at hrest
    refine ⟨skipSpace u, .none (blanks_skipSpace u) (stops_skipSpace u), hrest ▸ blanks_skipSpace _,
      fun hnil => .inr ?_⟩
    obtain ⟨head, y, hu, hy⟩ := (blanks_skipSpace u).exists_before hx
    rw [hnil] at hu
    rw [hu] at hwhole
    exact not_endsInKeyword_of_suffix hy ((List.suffix_append head [y]).trans hwhole)
  | @one l _ _ hl halone =>
    have hmatches := List.forall_mem_singleton.1 hls
    obtain ⟨v, y, hv, hy⟩ := hmatches.exists_concat
    have hsuffix := hl.suffix
    rw [hv, List.append_assoc, List.singleton_append] at hsuffix
    obtain ⟨r, rfl, -⟩ :=
      exists_of_cons_suffix_append hw hy ((List.suffix_append v _).trans hsuffix)
    refine ⟨r, (Arguments.one hl halone).of_append, .refl, ?_⟩
    rintro rfl
    exact (hmatches.standsAlone_iff hw hx hl.of_append hwhole).1 halone
  | @list _ _ t _ hopen hlist =>
    have hclose : ')' :: rest <:+ u ++ w :=
      hlist.closing_suffix.trans ((List.suffix_cons '(' t).trans hopen.suffix)
    obtain ⟨r, rfl, hr⟩ := exists_of_cons_suffix_append hw rfl hclose
    refine ⟨r, (Arguments.list hopen hlist).of_append, .refl, ?_⟩
    rintro rfl
    exact .inr (not_endsInKeyword_of_suffix rfl (hr.trans ((List.suffix_cons x u).trans hwhole)))

/-- The clauses have the same tokens. -/
structure Clause.Alike (j k : Clause) : Prop where
  selector : j.selector = k.selector
  token : j.token = k.token
  arguments : j.arguments = k.arguments

theorem Clause.Alike.spells {j k : Clause} {c : Comparison} (h : j.Alike k) (hk : k.Spells c) :
    j.Spells c :=
  ⟨h.selector.trans hk.selector, h.token ▸ hk.comparator, h.arguments.trans hk.arguments⟩

theorem Clause.Written.pad {k : Clause} {s rest : List Char} (h : k.Written s rest)
    (hw : Run isSpace w) (hwhole : s <:+ whole) (hkept : w = [] ∨ ¬ EndsInKeyword whole) :
    ∃ (j : Clause) (r : List Char), j.Written (s ++ w) r ∧ j.Alike k ∧ Blanks (rest ++ w) r := by
  have htokenStart := h.tokenStart_suffix
  obtain ⟨hwell, t, u, hs, hstart, ht, htoken, harguments, -⟩ := h
  obtain ⟨v, x, hv, hx, -⟩ := hwell.token.exists_concat
  have hu : x :: u <:+ k.tokenStart := by
    rw [htoken, hv, List.append_assoc]
    exact List.suffix_append v _
  obtain ⟨r, hr, hrest⟩ := harguments.pad hwell.arguments hw hx
    ((hu.trans htokenStart).trans hwhole) hkept
  let j : Clause :=
    { selector := k.selector, token := k.token, arguments := k.arguments
      start := k.start ++ w, tokenStart := k.tokenStart ++ w, stop := r }
  have hstart : j.start = j.selector ++ (t ++ w) := by
    rw [← List.append_assoc]
    exact congrArg (· ++ w) hstart
  have htoken : j.tokenStart = j.token ++ (u ++ w) := by
    rw [← List.append_assoc]
    exact congrArg (· ++ w) htoken
  exact ⟨j, r, ⟨⟨hwell.selector, hwell.token, hwell.arguments⟩, t ++ w, u ++ w, hs.append w, hstart,
    ht.append w, htoken, hr, rfl⟩, ⟨rfl, rfl, rfl⟩, hrest⟩

theorem Clause.Written.unpad {k : Clause} {s rest : List Char} (h : k.Written (s ++ w) rest)
    (hw : Run isSpace w) (hwhole : s <:+ whole) :
    ∃ (j : Clause) (r : List Char), j.Written s r ∧ j.Alike k ∧ Blanks (r ++ w) rest ∧
      (r = [] → w = [] ∨ ¬ EndsInKeyword whole) := by
  have htokenStart := h.tokenStart_suffix
  obtain ⟨hwell, t, u, hs, hstart, ht, htoken, harguments, -⟩ := h
  obtain ⟨v, x, hv, hx, hspace⟩ := hwell.token.exists_concat
  have hu : x :: u <:+ k.tokenStart := by
    rw [htoken, hv, List.append_assoc]
    exact List.suffix_append v _
  obtain ⟨u, rfl, hsuffix⟩ := exists_of_cons_suffix_append hw hspace (hu.trans htokenStart)
  rw [htoken, ← List.append_assoc] at ht
  obtain ⟨t, rfl⟩ := (List.suffix_append _ w).trans ht.suffix
  rw [hstart, ← List.append_assoc] at hs
  obtain ⟨r, hr, hrest, hkept⟩ := harguments.unpad hwell.arguments hw hx (hsuffix.trans hwhole)
  let j : Clause :=
    { selector := k.selector, token := k.token, arguments := k.arguments
      start := k.selector ++ t, tokenStart := k.token ++ u, stop := r }
  exact ⟨j, r, ⟨⟨hwell.selector, hwell.token, hwell.arguments⟩, t, u, hs.of_append, rfl,
    ht.of_append, rfl, hr, rfl⟩, ⟨rfl, rfl, rfl⟩, hrest, hkept⟩

end Clauses

/-! ## Carrying a layout to another text -/

/-- A relation between the places of two texts by which whatever is written at a place of the first
is written at a related place of the second, up to a related place. -/
structure Carries (T : List Char → List Char → Prop) : Prop where
  clause {k : Clause} {s s' rest : List Char} : k.Written s rest → T s s' →
    ∃ (j : Clause) (r : List Char), j.Written s' r ∧ j.Alike k ∧ T rest r
  paren {x : Char} {s s' rest : List Char} : x = '(' ∨ x = ')' → Blanks s (x :: rest) → T s s' →
    ∃ r, Blanks s' (x :: r) ∧ T rest r
  joint {c : Combinator} {s s' rest : List Char} : Joint c s rest → ¬ Blanks rest [] → T s s' →
    ∃ r, Joint c s' r ∧ T rest r

theorem Clause.Written.skipSpace_eq {k : Clause} {s rest : List Char} (h : k.Written s rest) :
    skipSpace s = k.start := by
  obtain ⟨⟨⟨c, w, hselector, hc, -⟩, -⟩, t, u, hs, hstart, -⟩ := h
  refine skipSpace_eq_iff.2 ⟨hs, ?_⟩
  rw [hstart, hselector]
  exact stops_cons.2 (isSpace_eq_false_of_isSelectorStart hc)

theorem Constraint.not_blanks {t : Node Clause} {s rest : List Char} (h : Constraint t s rest) :
    ¬ Blanks s [] := by
  intro hs
  have hnil := skipSpace_eq_iff.2 ⟨hs, stops_nil⟩
  cases h with
  | clause h => exact h.start_ne_nil (h.skipSpace_eq.symm.trans hnil)
  | group hopen _ _ =>
    rw [skipSpace_eq_iff.2 ⟨hopen, stops_cons.2 rfl⟩] at hnil
    cases hnil

theorem Alternatives.not_blanks {alternatives : List (List (Node Clause))} {s rest : List Char}
    (h : Alternatives alternatives s rest) : ¬ Blanks s [] := by
  cases h with
  | single h => exact h.not_blanks
  | and h _ _ => exact h.not_blanks
  | or h _ _ => exact h.not_blanks

section Carry

variable {T : List Char → List Char → Prop}

mutual

theorem Constraint.carry (hT : Carries T) : ∀ {t : Node Clause} {s rest : List Char},
    Constraint t s rest → ∀ {s' : List Char}, T s s' →
      ∃ u r, Constraint u s' r ∧ u.Rel Clause.Alike t ∧ T rest r
  | _, _, _, .clause h, _, hs => by
    obtain ⟨j, r, hj, halike, hr⟩ := hT.clause h hs
    exact ⟨.leaf j, r, .clause hj, halike, hr⟩
  | _, _, _, .group hopen h hclose, _, hs => by
    obtain ⟨s', hopen', hs⟩ := hT.paren (.inl rfl) hopen hs
    obtain ⟨alternatives, u, h', hrel, hu⟩ := h.carry hT hs
    obtain ⟨r, hclose', hr⟩ := hT.paren (.inr rfl) hclose hu
    exact ⟨.or (alternatives.map .and), r, .group hopen' h' hclose', hrel, hr⟩

/-- **A layout is carried from one text to another** with all its tokens. -/
theorem Alternatives.carry (hT : Carries T) : ∀ {alternatives : List (List (Node Clause))}
    {s rest : List Char}, Alternatives alternatives s rest → ∀ {s' : List Char}, T s s' →
      ∃ others r, Alternatives others s' r ∧
        Node.RelAll Clause.Alike (others.map .and) (alternatives.map .and) ∧ T rest r
  | _, _, _, .single h, _, hs => by
    obtain ⟨t, r, ht, hrel, hr⟩ := h.carry hT hs
    exact ⟨[[t]], r, .single ht, ⟨⟨hrel, trivial⟩, trivial⟩, hr⟩
  | _, _, _, .and h hand hmore, _, hs => by
    obtain ⟨t, u, ht, hrel, hu⟩ := h.carry hT hs
    obtain ⟨v, hand, hv⟩ := hT.joint hand hmore.not_blanks hu
    obtain ⟨others, r, hothers, hall, hr⟩ := hmore.carry hT hv
    cases others with
    | nil => cases hothers
    | cons conjunction others =>
      exact ⟨(t :: conjunction) :: others, r, .and ht hand hothers, ⟨⟨hrel, hall.1⟩, hall.2⟩, hr⟩
  | _, _, _, .or h hor hmore, _, hs => by
    obtain ⟨t, u, ht, hrel, hu⟩ := h.carry hT hs
    obtain ⟨v, hor, hv⟩ := hT.joint hor hmore.not_blanks hu
    obtain ⟨others, r, hothers, hall, hr⟩ := hmore.carry hT hv
    exact ⟨[t] :: others, r, .or ht hor hothers, ⟨⟨hrel, trivial⟩, hall⟩, hr⟩

end

end Carry

/-! ## Blanks at the end -/

/-- What is left of two texts is the same, apart from blanks before it and the blanks at the end of
the second. -/
def Padded (w s t : List Char) : Prop := skipSpace t = skipSpace (s ++ w)

section Padded

variable {w whole s t rest : List Char}

theorem Blanks.padded (h : Blanks (s ++ w) t) : Padded w s t := h.skipSpace_eq.symm

theorem padded_append : Padded w s (s ++ w) := rfl

theorem Clause.Written.of_skipSpace_eq {k : Clause} (h : k.Written s rest)
    (heq : skipSpace t = skipSpace s) : k.Written t rest := by
  rw [h.skipSpace_eq] at heq
  exact h.written_start.of_blanks (skipSpace_eq_iff.1 heq).1

theorem Joint.of_skipSpace_eq {c : Combinator} (h : Joint c s rest)
    (heq : skipSpace t = skipSpace s) : Joint c t rest := by
  rw [← combinator?_skipSpace_eq_some] at h ⊢
  rwa [heq]

theorem Blanks.of_skipSpace_eq (h : Blanks s rest) (hrest : Stops isSpace rest)
    (heq : skipSpace t = skipSpace s) : Blanks t rest := by
  rw [skipSpace_eq_iff.2 ⟨h, hrest⟩] at heq
  exact (skipSpace_eq_iff.1 heq).1

/-- The last character of a combinator is no blank. -/
theorem Combinator.SpelledBefore.exists_concat {c : Combinator} {v : List Char}
    (h : c.SpelledBefore v rest) : ∃ u x, v = u ++ [x] ∧ isSpace x = false := by
  rcases h with rfl | ⟨hv, -⟩
  · exact ⟨[], c.sign, rfl, by cases c <;> rfl⟩
  · have hne : v ≠ [] := by
      rintro rfl
      exact c.word_ne_nil hv.symm
    obtain ⟨u, x, hconcat, hx⟩ := (run_of_lower_eq_word hv).exists_concat hne
    exact ⟨u, x, hconcat, isSpace_eq_false_of_isWordChar x hx⟩

theorem Joint.of_append {c : Combinator} (h : Joint c (s ++ w) rest) (hw : Run isSpace w)
    (hrest : ¬ Blanks rest []) : ∃ r, rest = r ++ w ∧ Joint c s r := by
  obtain ⟨v, hv, hs⟩ := h
  obtain ⟨u, x, rfl, hx⟩ := hv.exists_concat
  have hsuffix := hs.suffix
  rw [List.append_assoc, List.singleton_append] at hsuffix
  obtain ⟨r, rfl, -⟩ := exists_of_cons_suffix_append hw hx ((List.suffix_append u _).trans hsuffix)
  rw [← List.append_assoc] at hs
  refine ⟨r, rfl, u ++ [x], hv.imp id (And.imp id fun hend => ?_), hs.of_append⟩
  -- something stands behind the combinator, so what ends its word does too
  cases r with
  | nil => exact absurd ⟨w, hw, (List.append_nil w).symm⟩ hrest
  | cons c r => exact hend

theorem isWordChar_paren {x : Char} (h : x = '(' ∨ x = ')') :
    isWordChar x = false ∧ isSpace x = false := by
  rcases h with rfl | rfl <;> exact ⟨rfl, rfl⟩

theorem carries_pad (hw : Run isSpace w) (hkept : w = [] ∨ ¬ EndsInKeyword whole) :
    Carries fun s t => Padded w s t ∧ s <:+ whole where
  clause h hs := by
    obtain ⟨j, r, hj, halike, hr⟩ := h.pad hw hs.2 hkept
    have hrest := h.suffix_tokenStart.trans h.tokenStart_suffix
    exact ⟨j, r, hj.of_skipSpace_eq hs.1, halike, hr.padded, hrest.trans hs.2⟩
  paren hx h hs := by
    have hspace := (isWordChar_paren hx).2
    exact ⟨_, (h.append w).of_skipSpace_eq (stops_cons.2 hspace) hs.1, padded_append,
      ((List.suffix_cons _ _).trans h.suffix).trans hs.2⟩
  joint h _ hs :=
    ⟨_, (h.append w).of_skipSpace_eq hs.1, padded_append, h.suffix.trans hs.2⟩

theorem carries_unpad (hw : Run isSpace w) :
    Carries fun t s => Padded w s t ∧ s <:+ whole ∧ (s = [] → w = [] ∨ ¬ EndsInKeyword whole) where
  clause h hs := by
    obtain ⟨j, r, hj, halike, hr, hkept⟩ := (h.of_skipSpace_eq hs.1.symm).unpad hw hs.2.1
    have hrest := hj.suffix_tokenStart.trans hj.tokenStart_suffix
    exact ⟨j, r, hj, halike, hr.padded, hrest.trans hs.2.1, hkept⟩
  paren {x} _ _ _ hx h hs := by
    obtain ⟨hword, hspace⟩ := isWordChar_paren hx
    have h := h.of_skipSpace_eq (stops_cons.2 hspace) hs.1.symm
    obtain ⟨r, rfl, hr⟩ := exists_of_cons_suffix_append hw hspace h.suffix
    have hwhole := hr.trans hs.2.1
    refine ⟨r, Blanks.of_append (t := x :: r) h, padded_append,
      (List.suffix_cons x r).trans hwhole, ?_⟩
    rintro rfl
    exact .inr (not_endsInKeyword_of_suffix hword hwhole)
  joint h hrest hs := by
    obtain ⟨r, rfl, hr⟩ := (h.of_skipSpace_eq hs.1.symm).of_append hw hrest
    refine ⟨r, hr, padded_append, hr.suffix.trans hs.2.1, ?_⟩
    rintro rfl
    exact absurd ⟨w, hw, (List.append_nil w).symm⟩ hrest

theorem blanks_nil_iff : Blanks s [] ↔ Run isSpace s := by
  constructor
  · rintro ⟨v, hv, rfl⟩
    rwa [List.append_nil]
  · exact fun h => ⟨s, h, (List.append_nil s).symm⟩

theorem Padded.blanks_iff (h : Padded w s t) (hw : Run isSpace w) :
    Blanks t [] ↔ Blanks s [] := by
  have ht : ∀ v : List Char, skipSpace v = [] ↔ Blanks v [] := fun v =>
    skipSpace_eq_iff.trans (and_iff_left stops_nil)
  rw [← ht t, h, ht (s ++ w), blanks_nil_iff, blanks_nil_iff, run_append, and_iff_left hw]

theorem LaidOut.pad {u : Node Clause} (h : LaidOut u s) (hw : Run isSpace w)
    (hkept : w = [] ∨ ¬ EndsInKeyword s) (ht : Padded w s t) :
    ∃ v, LaidOut v t ∧ v.Rel Clause.Alike u := by
  obtain ⟨alternatives, rest, rfl, h, hrest⟩ := h
  obtain ⟨others, r, hothers, hrel, hr, -⟩ := h.carry (carries_pad hw hkept) ⟨ht, List.suffix_rfl⟩
  exact ⟨.or (others.map .and), ⟨others, r, rfl, hothers, (hr.blanks_iff hw).2 hrest⟩, hrel⟩

theorem not_endsInKeyword_of_blank (h : Blanks rest []) (hne : rest ≠ []) (hs : rest <:+ s) :
    ¬ EndsInKeyword s := by
  obtain ⟨v, x, rfl, hx⟩ := (blanks_nil_iff.1 h).exists_concat hne
  exact not_endsInKeyword_of_suffix (isWordChar_eq_false_of_isSpace x hx)
    ((List.suffix_append v [x]).trans hs)

theorem LaidOut.unpad {u : Node Clause} (h : LaidOut u t) (hw : Run isSpace w)
    (ht : Padded w s t) :
    (w = [] ∨ ¬ EndsInKeyword s) ∧ ∃ v, LaidOut v s ∧ v.Rel Clause.Alike u := by
  have hne : s ≠ [] := by
    rintro rfl
    exact h.not_blank ((ht.blanks_iff hw).2 .refl)
  obtain ⟨alternatives, rest, rfl, h, hrest⟩ := h
  obtain ⟨others, r, hothers, hrel, hr, hsuffix, hkept⟩ :=
    h.carry (carries_unpad hw) ⟨ht, List.suffix_rfl, fun hnil => absurd hnil hne⟩
  have hblank := (hr.blanks_iff hw).1 hrest
  refine ⟨?_, .or (others.map .and), ⟨others, r, rfl, hothers, hblank⟩, hrel⟩
  by_cases hnil : r = []
  · exact hkept hnil
  · exact .inr (not_endsInKeyword_of_blank hblank hnil hsuffix)

end Padded

/-! ## Whole texts -/

section Texts

variable {f : Filter} {u text w : String}

theorem padded_toList (hu : Run isSpace u.toList) :
    Padded w.toList text.toList (u ++ text ++ w).toList := by
  rw [String.toList_append, String.toList_append, List.append_assoc]
  exact Blanks.skipSpace_eq ⟨u.toList, hu, rfl⟩

theorem Clause.rel_spells {s t : Node Clause} (h : s.Rel Clause.Alike t)
    (ht : t.Rel Clause.Spells f) : s.Rel Clause.Spells f :=
  (h.comp ht).imp fun _ _ ⟨_, halike, hspells⟩ => halike.spells hspells

/-- The ways to write a filter are the same with blanks around them, unless blanks follow the word
of a combinator at the end. -/
theorem writes_padded_iff (hu : Run isSpace u.toList) (hw : Run isSpace w.toList) :
    Writes f (u ++ text ++ w) ↔ Writes f text ∧ (w = "" ∨ ¬ EndsInKeyword text.toList) := by
  have hpadded : Padded w.toList text.toList (u ++ text ++ w).toList := padded_toList hu
  rw [← String.toList_eq_nil_iff]
  constructor
  · rintro ⟨t, hspells, ht⟩
    obtain ⟨hkept, s, hs, halike⟩ := ht.unpad hw hpadded
    exact ⟨⟨s, Clause.rel_spells halike hspells, hs⟩, hkept⟩
  · rintro ⟨⟨t, hspells, ht⟩, hkept⟩
    obtain ⟨s, hs, halike⟩ := ht.pad hw hkept hpadded
    exact ⟨s, Clause.rel_spells halike hspells, hs⟩

theorem writes_of_read (h : read text = .ok f) :
    Blanks text.toList [] ∧ f = unrestricted ∨ Writes f text := by
  have hread := read_outcome text
  rw [h] at hread
  exact hread.imp id And.right

/-- **Blanks around a text.** With blanks around it, a text is read as the same filter, apart from
the places of the comparisons, and a text that is no filter does not become one. But a text that
ends in the word of a combinator, behind a character that no word contains, is no filter with a
blank behind it. -/
theorem read_padded (hu : Run isSpace u.toList) (hw : Run isSpace w.toList) :
    (∀ f, read text = .ok f → (w = "" ∨ ¬ EndsInKeyword text.toList) →
      ∃ g : Filter, read (u ++ text ++ w) = .ok g ∧ g.Rel Comparison.Alike f) ∧
    ∀ g, read (u ++ text ++ w) = .ok g → (w = "" ∨ ¬ EndsInKeyword text.toList) ∧
      ∃ f : Filter, read text = .ok f ∧ f.Rel Comparison.Alike g := by
  have hblanks : Blanks (u ++ text ++ w).toList [] ↔ Blanks text.toList [] :=
    (padded_toList hu).blanks_iff hw
  constructor
  · intro f h hkept
    rcases writes_of_read h with ⟨hblank, rfl⟩ | hwrites
    · exact ⟨unrestricted, readChars_of_blank (hblanks.2 hblank), trivial⟩
    · exact ((writes_padded_iff hu hw).2 ⟨hwrites, hkept⟩).exists_read
  · intro g h
    rcases writes_of_read h with ⟨hblank, rfl⟩ | hwrites
    · have hblank := hblanks.1 hblank
      refine ⟨?_, unrestricted, readChars_of_blank hblank, trivial⟩
      by_cases hnil : text.toList = []
      · refine .inr ?_
        rw [hnil]
        rintro ⟨head, x, word, heq, -⟩
        simp at heq
      · exact .inr (not_endsInKeyword_of_blank hblank hnil List.suffix_rfl)
    · obtain ⟨hwrites, hkept⟩ := (writes_padded_iff hu hw).1 hwrites
      exact ⟨hkept, hwrites.exists_read⟩

/-- A filter on a line of its own. -/
theorem read_padded_own_line :
    (∀ c ∈ "\n".toList, isSpace c = true) ∧ (∀ c ∈ " \r\n".toList, isSpace c = true) ∧
      ∃ g : Filter, read ("\n" ++ "Age>=18" ++ " \r\n") = .ok g ∧
        g.Rel Comparison.Alike (.or [.and [.leaf ⟨"Age", .ge, [.number "18"], ⟨0, 7, 1, 1⟩⟩]]) := by
  have hu : Run isSpace "\n".toList := run_of_all rfl
  have hw : Run isSpace " \r\n".toList := run_of_all rfl
  have hread : read "Age>=18" =
      .ok (.or [.and [.leaf ⟨"Age", .ge, [.number "18"], ⟨0, 7, 1, 1⟩⟩]]) := by cbv
  have hkept : ¬ EndsInKeyword "Age>=18".toList := by
    have htext : "Age>=18".toList = "Age>".toList ++ '=' :: ['1', '8'] := rfl
    rw [htext, endsInKeyword_iff rfl (run_of_all rfl)]
    rintro ⟨c, hc⟩
    cases c <;> cases hc
  exact ⟨hu, hw, (read_padded hu hw).1 _ hread (.inr hkept)⟩

/-- A word that is an argument at the end of a text, and a combinator before a blank. -/
theorem blank_makes_combinator :
    read "a==and" = .ok (.or [.and [.leaf ⟨"a", .eq, [.bare "and"], ⟨0, 6, 1, 1⟩⟩]]) ∧
      isSpace ' ' = true ∧ ∃ e, read "a==and " = .error e := by
  have hpadded : read "a==and " = .error (.unexpected [.group, .selector] 1 8 "a==and ") := by cbv
  exact ⟨by cbv, rfl, _, hpadded⟩

end Texts

end RecordFilter.Filter

import Mathlib
import RecordFilter.Filter.Comparator
import RecordFilter.Filter.Lexeme

/-!
# The tokens of filters

What a token is, as a property of texts, apart from the scanners that look for one at the head of a
longer text. Each scanner is then tied to its tokens by an equivalence (`combinator?_eq_some`,
`comparator?_eq_some`, `literal?_eq_some`): it finds a token exactly if the text is that token
followed by a rest, and the rest does not go on in a way that would have made the token a longer
one.
-/

namespace RecordFilter.Filter

open Text

/-! ## Runs -/

/-- All characters of a text have a property. -/
def Run (p : Char → Bool) (w : List Char) : Prop := ∀ c ∈ w, p c = true

theorem run_of_all {p : Char → Bool} {w : List Char} (h : w.all p = true) : Run p w :=
  List.all_eq_true.1 h

theorem Run.nil {p : Char → Bool} : Run p [] := nofun

theorem run_cons {p : Char → Bool} {c : Char} {s : List Char} :
    Run p (c :: s) ↔ p c = true ∧ Run p s := List.forall_mem_cons

theorem run_append {p : Char → Bool} {s t : List Char} :
    Run p (s ++ t) ↔ Run p s ∧ Run p t := List.forall_mem_append

theorem Run.exists_concat {p : Char → Bool} {w : List Char} (h : Run p w) (hne : w ≠ []) :
    ∃ v c, w = v ++ [c] ∧ p c = true := by
  obtain ⟨v, c, rfl⟩ := (List.eq_nil_or_concat' w).resolve_left hne
  exact ⟨v, c, rfl, h c (List.mem_append_right v (List.mem_singleton_self c))⟩

/-- A text does not begin with a character that has a property. -/
def Stops (p : Char → Bool) (s : List Char) : Prop := ∀ c ∈ s.head?, p c = false

theorem stops_nil {p : Char → Bool} : Stops p [] := nofun

theorem stops_cons {p : Char → Bool} {c : Char} {s : List Char} :
    Stops p (c :: s) ↔ p c = false := by
  simp [Stops]

theorem stops_dropWhile {p : Char → Bool} : ∀ {s : List Char}, Stops p (s.dropWhile p)
  | [] => stops_nil
  | c :: s => by
    rw [List.dropWhile_cons]
    split
    · exact stops_dropWhile
    · next h => exact stops_cons.2 (Bool.eq_false_iff.2 h)

theorem Stops.dropWhile_eq {p : Char → Bool} : ∀ {s : List Char}, Stops p s → s.dropWhile p = s
  | [], _ => rfl
  | _ :: _, h => List.dropWhile_cons_of_neg (Bool.eq_false_iff.1 (stops_cons.1 h))

theorem Stops.takeWhile_eq {p : Char → Bool} : ∀ {s : List Char}, Stops p s → s.takeWhile p = []
  | [], _ => rfl
  | _ :: _, h => List.takeWhile_cons_of_neg (Bool.eq_false_iff.1 (stops_cons.1 h))

theorem run_takeWhile {p : Char → Bool} {s : List Char} : Run p (s.takeWhile p) :=
  run_of_all List.all_takeWhile

/-- A text is split behind its longest run exactly where the run cannot go on. -/
theorem splitWhile_eq_iff {p : Char → Bool} {s w rest : List Char} :
    splitWhile p s = (w, rest) ↔ Run p w ∧ s = w ++ rest ∧ Stops p rest := by
  constructor
  · rintro ⟨⟩
    exact ⟨run_takeWhile, List.takeWhile_append_dropWhile.symm, stops_dropWhile⟩
  · rintro ⟨hw, rfl, hrest⟩
    rw [splitWhile, List.takeWhile_append_of_pos hw, List.dropWhile_append_of_pos hw,
      hrest.takeWhile_eq, hrest.dropWhile_eq, List.append_nil]

/-- The longest run at the end of a text, found from there. -/
theorem splitWhile_reverse {p : Char → Bool} {s w : List Char} {c : Char} (hw : Run p w)
    (hc : p c = false) : splitWhile p (s ++ c :: w).reverse = (w.reverse, c :: s.reverse) := by
  refine splitWhile_eq_iff.2 ⟨fun d hd => hw d (List.mem_reverse.1 hd), ?_, stops_cons.2 hc⟩
  rw [List.reverse_append, List.reverse_cons, List.append_assoc, List.singleton_append]

/-! ## Blanks -/

/-- A text that is some blanks, or none, and then another text. -/
def Blanks (s rest : List Char) : Prop := ∃ w, Run isSpace w ∧ s = w ++ rest

namespace Blanks

variable {s t u : List Char}

theorem refl : Blanks s s := ⟨[], nofun, rfl⟩

theorem trans (h : Blanks s t) (h' : Blanks t u) : Blanks s u := by
  obtain ⟨w, hw, rfl⟩ := h
  obtain ⟨w', hw', rfl⟩ := h'
  refine ⟨w ++ w', ?_, (List.append_assoc ..).symm⟩
  intro c hc
  exact (List.mem_append.1 hc).elim (hw c) (hw' c)

/-- The blanks before a text do not matter to what is left behind them. -/
theorem skipSpace_eq (h : Blanks s t) : skipSpace s = skipSpace t := by
  obtain ⟨w, hw, rfl⟩ := h
  exact List.dropWhile_append_of_pos hw

/-- What blanks do not begin with, a text behind blanks does not either. -/
theorem stops {p : Char → Bool} (h : Blanks s t) (hp : ∀ c, isSpace c = true → p c = false)
    (ht : Stops p t) : Stops p s := by
  obtain ⟨w, hw, rfl⟩ := h
  cases w with
  | nil => exact ht
  | cons c w => exact stops_cons.2 (hp c (hw c List.mem_cons_self))

end Blanks

theorem blanks_skipSpace (s : List Char) : Blanks s (skipSpace s) :=
  ⟨s.takeWhile isSpace, run_takeWhile, List.takeWhile_append_dropWhile.symm⟩

theorem stops_skipSpace (s : List Char) : Stops isSpace (skipSpace s) := stops_dropWhile

theorem skipSpace_eq_iff {s t : List Char} : skipSpace s = t ↔ Blanks s t ∧ Stops isSpace t := by
  constructor
  · rintro rfl
    exact ⟨blanks_skipSpace s, stops_skipSpace s⟩
  · rintro ⟨h, ht⟩
    rw [h.skipSpace_eq]
    exact ht.dropWhile_eq

/-! ## Word characters -/

/-- The characters that no word contains: blanks, quotes, parentheses and parts of operators. -/
def nonWordChars : List Char :=
  [' ', '\t', '\r', '\n', '\'', '"', '(', ')', ';', ',', '=', '!', '<', '>']

theorem isWordChar_eq_false_iff {c : Char} : isWordChar c = false ↔ c ∈ nonWordChars := by
  simp only [isWordChar, isSpace, isSpecial, nonWordChars, Bool.and_eq_false_iff,
    Bool.not_eq_false', Bool.or_eq_true, beq_iff_eq, List.mem_cons, List.not_mem_nil, or_false,
    or_assoc]

theorem toLower_of_mem_nonWordChars : ∀ x ∈ nonWordChars, x.toLower = x := by
  simp [nonWordChars]

theorem isWordChar_eq_false_of_isSpace (c : Char) (h : isSpace c = true) :
    isWordChar c = false := by
  rw [isWordChar, h, Bool.not_true, Bool.false_and]

theorem isSpace_eq_false_of_isWordChar (c : Char) (h : isWordChar c = true) :
    isSpace c = false := by
  rw [isWordChar, Bool.and_eq_true, Bool.not_eq_true'] at h
  exact h.1

/-- A word character is none of the characters with a meaning of their own. -/
theorem beq_eq_false_of_isWordChar {x : Char} (hx : isWordChar x = false) (c : Char)
    (h : isWordChar c = true) : (c == x) = false := by
  rw [beq_eq_false_iff_ne]
  rintro rfl
  rw [hx] at h
  cases h

/-! ## Letter case -/

/-- Letters stay letters in lower case, so what is none was none before. -/
theorem eq_of_toLower_eq {c d : Char} (h : c.toLower = d) (hd : d.isAlpha = false) : c = d := by
  rw [← h, Char.isAlpha_toLower_eq_isAlpha, Char.isAlpha, Bool.or_eq_false_iff] at hd
  rw [← h]
  exact (Char.toLower_eq_of_not_isUpper (Bool.eq_false_iff.1 hd.1)).symm

theorem eq_of_lower_eq {s t : List Char} (h : lower s = t) (ht : ∀ c ∈ t, c.isAlpha = false) :
    s = t := by
  induction s generalizing t with
  | nil => exact h
  | cons c s ih =>
    subst h
    obtain ⟨hc, hs⟩ := List.forall_mem_cons.1 ht
    have hhead := eq_of_toLower_eq rfl hc
    have htail := ih rfl hs
    calc
      c :: s = c.toLower :: s := by rw [← hhead]
      _ = c.toLower :: lower s := by rw [← htail]

/-! ## Selectors -/

/-- A selector: letters, digits and underscores, the first one no digit. -/
def IsSelector (s : List Char) : Prop :=
  ∃ c w, s = c :: w ∧ isSelectorStart c = true ∧ Run isSelectorChar w

theorem isSpace_eq_false_of_isSelectorStart {c : Char} (h : isSelectorStart c = true) :
    isSpace c = false := by
  rw [← Bool.not_eq_true]
  intro hc
  -- four characters are blanks, and none of them begins a selector
  simp only [isSpace, Bool.or_eq_true, beq_iff_eq] at hc
  rcases hc with ((rfl | rfl) | rfl) | rfl <;> cases h

theorem isSelectorChar_eq_false_of_isSpace (c : Char) (h : isSpace c = true) :
    isSelectorChar c = false := by
  simp only [isSpace, Bool.or_eq_true, beq_iff_eq] at h
  rcases h with ((rfl | rfl) | rfl) | rfl <;> rfl

/-! ## Comparators -/

/-- The comparators without a name. -/
def symbols : List (List Char) :=
  [['=', '='], ['!', '='], ['<', '='], ['>', '='], ['<'], ['>']]

/-- A comparator, known or not: letters between equals signs, or a symbol. -/
def IsComparator (token : List Char) : Prop :=
  (∃ name, name ≠ [] ∧ Run Char.isAlpha name ∧ token = '=' :: (name ++ ['='])) ∨ token ∈ symbols

/-- A comparator that an equals sign would turn into another one. -/
def Extensible (token : List Char) : Prop := token = ['<'] ∨ token = ['>']

theorem symbol?_eq_some {s token rest : List Char} :
    symbol? s = some (token, rest) ↔
      token ∈ symbols ∧ s = token ++ rest ∧ (Extensible token → Stops (· == '=') rest) := by
  constructor
  · intro h
    unfold symbol? at h
    split at h <;> try cases h
    all_goals simp [symbols, Extensible]
    -- the last two, where no equals sign follows
    all_goals
      next hne =>
        cases rest with
        | nil => exact stops_nil
        | cons c rest =>
          refine stops_cons.2 (beq_eq_false_iff_ne.2 ?_)
          rintro rfl
          exact hne rest rfl
  · rintro ⟨htoken, rfl, hstop⟩
    simp only [symbols, List.mem_cons, List.not_mem_nil, or_false] at htoken
    rcases htoken with rfl | rfl | rfl | rfl | rfl | rfl
    · rfl
    · rfl
    · rfl
    · rfl
    all_goals
      cases rest with
      | nil => rfl
      | cons c rest =>
        have hc := stops_cons.1 (hstop (by simp [Extensible]))
        have hc : c ≠ '=' := beq_eq_false_iff_ne.1 hc
        simp [symbol?, hc]

theorem comparator?_eq_some {s token rest : List Char} :
    comparator? s = some (token, rest) ↔
      IsComparator token ∧ s = token ++ rest ∧ (Extensible token → Stops (· == '=') rest) := by
  constructor
  · intro h
    unfold comparator? at h
    split at h
    · next tail =>
      split at h
      · next c name after hs =>
        cases h
        obtain ⟨hname, rfl, -⟩ := splitWhile_eq_iff.1 hs
        refine ⟨.inl ⟨c :: name, List.cons_ne_nil _ _, hname, rfl⟩, by simp, ?_⟩
        rintro (h | h) <;> simp at h
      · obtain ⟨hsymbol, h⟩ := symbol?_eq_some.1 h
        exact ⟨.inr hsymbol, h⟩
    · obtain ⟨hsymbol, h⟩ := symbol?_eq_some.1 h
      exact ⟨.inr hsymbol, h⟩
  · rintro ⟨⟨name, hne, hname, rfl⟩ | hsymbol, rfl, hstop⟩
    · have hs : splitWhile Char.isAlpha (name ++ '=' :: rest) = (name, '=' :: rest) :=
        splitWhile_eq_iff.2 ⟨hname, rfl, stops_cons.2 rfl⟩
      cases name with
      | nil => exact absurd rfl hne
      | cons c name =>
        rw [List.cons_append] at hs
        simp [comparator?, hs]
    · have h := symbol?_eq_some.2 ⟨hsymbol, rfl, hstop⟩
      simp only [symbols, List.mem_cons, List.not_mem_nil, or_false] at hsymbol
      rcases hsymbol with rfl | rfl | rfl | rfl | rfl | rfl
      -- of the symbols, only this one begins like a name between equals signs
      · have hs : splitWhile Char.isAlpha ('=' :: rest) = ([], '=' :: rest) :=
          splitWhile_eq_iff.2 ⟨nofun, rfl, stops_cons.2 rfl⟩
        simp only [comparator?, List.cons_append, List.nil_append, hs]
        exact h
      all_goals exact h

theorem IsComparator.of_lower {token : List Char} (h : IsComparator (lower token)) :
    IsComparator token := by
  rcases h with ⟨name, hne, hname, heq⟩ | hsymbol
  · obtain ⟨a, w, rfl, ha, hw⟩ := List.map_eq_cons_iff.1 heq
    obtain ⟨v, u, rfl, rfl, hu⟩ := List.map_eq_append_iff.1 hw
    obtain ⟨b, x, rfl, hb, hx⟩ := List.map_eq_cons_iff.1 hu
    obtain rfl := List.map_eq_nil_iff.1 hx
    -- equals signs have no letter case, so they stood there before
    obtain rfl := eq_of_toLower_eq ha rfl
    obtain rfl := eq_of_toLower_eq hb rfl
    refine .inl ⟨v, mt List.map_eq_nil_iff.2 hne, ?_, rfl⟩
    intro c hc
    have hlower := hname _ (List.mem_map_of_mem hc)
    rwa [Char.isAlpha_toLower_eq_isAlpha] at hlower
  · right
    have heq : token = lower token := by
      refine eq_of_lower_eq rfl ?_
      simp only [symbols, List.mem_cons, List.not_mem_nil, or_false] at hsymbol
      rcases hsymbol with h | h | h | h | h | h <;> rw [h] <;> simp
    rwa [heq]

theorem Comparator.comparator?_spelling (c : Comparator) :
    ∀ word ∈ c.spelling :: c.otherSpellings,
      comparator? word.toList = some (word.toList, []) := by
  cases c <;> decide

/-- Every token that a comparator is found for is a comparator of the grammar. -/
theorem Comparator.isComparator_of_ofToken? {token : List Char} {c : Comparator}
    (h : ofToken? (String.ofList token) = some c) : IsComparator token := by
  have hword := List.find?_some h
  rw [decide_eq_true_eq, lowerString, String.toList_ofList] at hword
  have hfound := c.comparator?_spelling _ (List.mem_cons.2 hword)
  rw [String.toList_ofList] at hfound
  exact (comparator?_eq_some.1 hfound).1.of_lower

/-! ## Combinators -/

/-- The sign of a combinator. -/
def Combinator.sign : Combinator → Char
  | .and => ';'
  | .or => ','

/-- The word of a combinator. -/
def Combinator.word : Combinator → List Char
  | .and => ['a', 'n', 'd']
  | .or => ['o', 'r']

/-- A spelling of a combinator before the text that follows it: the sign, or the word in any letter
case before a blank or an opening parenthesis. -/
def Combinator.SpelledBefore (c : Combinator) (w rest : List Char) : Prop :=
  w = [c.sign] ∨ lower w = c.word ∧ endsKeyword rest = true

theorem Combinator.run_word (c : Combinator) : Run isWordChar c.word := by
  cases c <;> exact run_of_all rfl

theorem run_of_lower_eq_word {c : Combinator} {w : List Char} (h : lower w = c.word) :
    Run isWordChar w := by
  intro x hx
  have hlower : x.toLower ∈ c.word := h ▸ List.mem_map_of_mem hx
  rw [← Bool.not_eq_false]
  intro hfalse
  -- what is in no word has no letter case
  rw [toLower_of_mem_nonWordChars x (isWordChar_eq_false_iff.1 hfalse)] at hlower
  rw [c.run_word x hlower] at hfalse
  cases hfalse

theorem stops_of_endsKeyword {s : List Char} (h : endsKeyword s = true) : Stops isWordChar s := by
  cases s with
  | nil => exact stops_nil
  | cons c s =>
    rw [endsKeyword, Bool.or_eq_true, beq_iff_eq] at h
    rw [stops_cons, isWordChar]
    rcases h with h | rfl
    · rw [h, Bool.not_true, Bool.false_and]
    · decide

theorem Combinator.isWordChar_sign (c : Combinator) : isWordChar c.sign = false := by
  cases c <;> rfl

/-- A text that begins with no sign of a combinator can only begin with a word. -/
theorem combinator?_of_ne_sign {s : List Char} (h : ∀ (c : Combinator) t, s ≠ c.sign :: t) :
    combinator? s =
      if lower (s.take 3) = ['a', 'n', 'd'] ∧ endsKeyword (s.drop 3) then some (.and, s.drop 3)
      else if lower (s.take 2) = ['o', 'r'] ∧ endsKeyword (s.drop 2) then some (.or, s.drop 2)
      else none := by
  unfold combinator?
  split
  · exact absurd rfl (h .and _)
  · exact absurd rfl (h .or _)
  · rfl

theorem combinator?_of_word {c : Combinator} {w rest : List Char} (hw : lower w = c.word)
    (hend : endsKeyword rest = true) : combinator? (w ++ rest) = some (c, rest) := by
  have hrun := run_of_lower_eq_word hw
  have hne : ∀ (d : Combinator) t, w ++ rest ≠ d.sign :: t := by
    intro d t heq
    cases w with
    | nil => cases c <;> cases hw
    | cons x w =>
      have hx := hrun x List.mem_cons_self
      rw [(List.cons.inj heq).1, d.isWordChar_sign] at hx
      cases hx
  rw [combinator?_of_ne_sign hne]
  cases c with
  | and =>
    have hlen : w.length = 3 := List.length_map Char.toLower ▸ congrArg List.length hw
    obtain ⟨a, b, d, rfl⟩ := List.length_eq_three.1 hlen
    exact if_pos ⟨hw, hend⟩
  | or =>
    have hlen : w.length = 2 := List.length_map Char.toLower ▸ congrArg List.length hw
    obtain ⟨a, b, rfl⟩ := List.length_eq_two.1 hlen
    rw [if_neg]
    · exact if_pos ⟨hw, hend⟩
    · -- the first letter is an o
      rintro ⟨hand, -⟩
      have ho := (List.cons.inj hw).1
      have ha := (List.cons.inj hand).1
      rw [ho] at ha
      cases ha

theorem combinator?_eq_some {s rest : List Char} {c : Combinator} :
    combinator? s = some (c, rest) ↔ ∃ w, c.SpelledBefore w rest ∧ s = w ++ rest := by
  constructor
  · intro h
    unfold combinator? at h
    split at h
    · cases h
      exact ⟨[';'], .inl rfl, rfl⟩
    · cases h
      exact ⟨[','], .inl rfl, rfl⟩
    · split at h
      · next hw =>
        cases h
        exact ⟨s.take 3, .inr hw, (List.take_append_drop 3 s).symm⟩
      · split at h
        · next hw =>
          cases h
          exact ⟨s.take 2, .inr hw, (List.take_append_drop 2 s).symm⟩
        · cases h
  · rintro ⟨w, rfl | ⟨hw, hend⟩, rfl⟩
    · cases c <;> rfl
    · exact combinator?_of_word hw hend

theorem Combinator.word_ne_nil (c : Combinator) : c.word ≠ [] := by
  cases c <;> exact List.cons_ne_nil _ _

/-- No combinator begins with a character that is neither a sign nor a word character. -/
theorem combinator?_cons_eq_none {x : Char} {s : List Char} (hword : isWordChar x = false)
    (hsign : ∀ c : Combinator, x ≠ c.sign) : combinator? (x :: s) = none := by
  rw [← Option.not_isSome_iff_eq_none, Option.isSome_iff_exists]
  rintro ⟨⟨c, rest⟩, hc⟩
  obtain ⟨w, rfl | ⟨hw, -⟩, heq⟩ := combinator?_eq_some.1 hc
  · exact hsign c (List.cons.inj heq).1
  · cases w with
    | nil => exact c.word_ne_nil hw.symm
    | cons y w =>
      have hy := run_of_lower_eq_word hw y List.mem_cons_self
      rw [← (List.cons.inj heq).1, hword] at hy
      cases hy

/-- A whole word is a combinator if its letters are, and a blank or an opening parenthesis
follows. -/
theorem combinator?_word_eq_none {w rest : List Char} (hne : w ≠ []) (hw : Run isWordChar w)
    (hrest : Stops isWordChar rest) :
    combinator? (w ++ rest) = none ↔
      ∀ c : Combinator, lower w = c.word → endsKeyword rest = false := by
  constructor
  · intro h c hc
    rw [← Bool.not_eq_true]
    intro hend
    rw [combinator?_eq_some.2 ⟨w, .inr ⟨hc, hend⟩, rfl⟩] at h
    cases h
  · intro h
    rw [← Option.not_isSome_iff_eq_none, Option.isSome_iff_exists]
    rintro ⟨⟨c, rest'⟩, hc⟩
    obtain ⟨w', rfl | ⟨hw', hend⟩, heq⟩ := combinator?_eq_some.1 hc
    · cases w with
      | nil => exact hne rfl
      | cons x w =>
        have hx := hw x List.mem_cons_self
        rw [(List.cons.inj heq).1, c.isWordChar_sign] at hx
        cases hx
    · -- both are the longest word at the head of the text
      have h₁ := splitWhile_eq_iff.2 ⟨hw, rfl, hrest⟩
      have h₂ := splitWhile_eq_iff.2
        ⟨run_of_lower_eq_word hw', heq, stops_of_endsKeyword hend⟩
      rw [h₁] at h₂
      obtain ⟨rfl, rfl⟩ := Prod.mk.inj h₂
      rw [h c hw'] at hend
      cases hend

end RecordFilter.Filter

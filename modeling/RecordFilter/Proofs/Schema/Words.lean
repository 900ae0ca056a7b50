import Mathlib
import RecordFilter.Proofs.Filter.Tokens
import RecordFilter.Resolver

/-!
# The words of selectors

Under the convention with underscores a selector counts only for its words, the parts between
underscores that are not empty: its property name is their names in a row (`candidate_snakeCase`).
Underscores at an end or next to each other make no words, so selectors that differ in such
underscores are resolved alike (`snakeCase_by_words`).

Everything follows from two equations. A selector without underscores is one word
(`candidate_of_word`), and an underscore between two selectors stands between their names
(`candidate_append`).
-/

namespace RecordFilter.Naming

open RecordFilter.Filter Text

variable {s t w : List Char}

/-! ## Words -/

/-- The words of a selector: what stands between underscores, where anything does. -/
def words (s : List Char) : List (List Char) := (s.splitOn '_').filter (!·.isEmpty)

theorem words_append (s t : List Char) : words (s ++ '_' :: t) = words s ++ words t := by
  unfold words List.splitOn
  rw [List.splitOnP_append_cons s t rfl, List.filter_append]

theorem words_of_word (hw : '_' ∉ w) : words w = if w.isEmpty then [] else [w] := by
  rw [words, List.splitOn_eq_singleton hw, List.filter_singleton]
  cases w <;> rfl

/-- Every text is a word, or two texts with an underscore between them. -/
theorem induction_underscores {P : List Char → Prop} (hword : ∀ w, '_' ∉ w → P w)
    (hjoin : ∀ s t, P s → P t → P (s ++ '_' :: t)) (s : List Char) : P s := by
  induction hlength : s.length using Nat.strong_induction_on generalizing s with
  | h n ih =>
    by_cases hs : '_' ∈ s
    · obtain ⟨w, t, rfl, hw⟩ := List.eq_append_cons_of_mem hs
      rw [List.length_append, List.length_cons] at hlength
      exact hjoin w t (hword w hw) (ih t.length (by omega) t rfl)
    · exact hword s hs

/-! ## Names -/

theorem joinWords_of_word (hw : '_' ∉ w) : joinWords false w = w := by
  induction w with
  | nil => rfl
  | cons c w ih =>
    obtain ⟨hc, hw⟩ := List.ne_and_not_mem_of_not_mem_cons hw
    rw [joinWords, if_neg (Ne.symm hc), ih hw]
    rfl

/-- A word stands for its own name, under both conventions. -/
theorem candidate_of_word (hw : '_' ∉ w) : snakeCase.candidate w = camelCase.candidate w := by
  cases w with
  | nil => rfl
  | cons c w =>
    obtain ⟨hc, hw⟩ := List.ne_and_not_mem_of_not_mem_cons hw
    show joinWords true (c :: w) = upperFirst (c :: w)
    rw [joinWords, if_neg (Ne.symm hc), joinWords_of_word hw]
    rfl

theorem joinWords_append (start : Bool) (s t : List Char) :
    joinWords start (s ++ '_' :: t) = joinWords start s ++ joinWords true t := by
  induction s generalizing start with
  | nil => rfl
  | cons c s ih =>
    rw [List.cons_append, joinWords, joinWords, ih, ih]
    split
    · rfl
    · exact (List.append_assoc _ _ _).symm

/-- An underscore between two selectors stands between their names. -/
theorem candidate_append (s t : List Char) :
    snakeCase.candidate (s ++ '_' :: t) = snakeCase.candidate s ++ snakeCase.candidate t :=
  joinWords_append true s t

/-- **A selector stands for the names of its words in a row.** -/
theorem candidate_snakeCase (s : List Char) :
    snakeCase.candidate s = (words s).flatMap upperFirst := by
  induction s using induction_underscores with
  | hword w hw =>
    rw [words_of_word hw, candidate_of_word hw]
    cases w with
    | nil => rfl
    | cons c w => exact (List.flatMap_singleton upperFirst (c :: w)).symm
  | hjoin s t hs ht => rw [candidate_append, words_append, List.flatMap_append, hs, ht]

/-! ## Names of ASCII selectors -/

theorem toNat_lt_of_isSelectorChar {c : Char} (h : isSelectorChar c = true) : c.toNat < 0x80 := by
  simp only [isSelectorChar, Char.isAlphanum, Char.isAlpha, Char.isUpper, Char.isLower,
    Char.isDigit, Bool.or_eq_true, Bool.and_eq_true, decide_eq_true_eq, beq_iff_eq] at h
  rcases h with ((⟨-, h⟩ | ⟨-, h⟩) | ⟨-, h⟩) | rfl
  · exact lt_of_le_of_lt (show c.toNat ≤ 'Z'.toNat from h) (by decide)
  · exact lt_of_le_of_lt (show c.toNat ≤ 'z'.toNat from h) (by decide)
  · exact lt_of_le_of_lt (show c.toNat ≤ '9'.toNat from h) (by decide)
  · decide

theorem uppercase_of_isSelectorChar {c : Char} (h : isSelectorChar c = true) :
    uppercase c = [c.toUpper] :=
  if_pos (toNat_lt_of_isSelectorChar h)

theorem eq_underscore_of_toUpper {c : Char} (h : c.toUpper = '_') : c = '_' := by
  have halpha : c.isAlpha = false := by
    rw [← Char.isAlpha_toUpper_eq_isAlpha, h]
    rfl
  rw [Char.isAlpha, Bool.or_eq_false_iff] at halpha
  rwa [Char.toUpper_eq_of_not_isLower (Bool.eq_false_iff.1 halpha.2)] at h

/-- A capital stays as it is. -/
theorem upperFirst_capital {c : Char} (h : isSelectorChar c = true) (s : List Char) :
    upperFirst (c.toUpper :: s) = c.toUpper :: s := by
  have hlt : c.toUpper.toNat < 0x80 := by
    by_cases hlower : c.isLower = true
    · have hlt := toNat_lt_of_isSelectorChar h
      rw [Char.toUpper_eq_of_isLower hlower, Char.toNat_ofNat]
      split <;> omega
    · rw [Char.toUpper_eq_of_not_isLower hlower]
      exact toNat_lt_of_isSelectorChar h
  rw [upperFirst, uppercase, if_pos hlt, Char.toUpper_toUpper_eq_toUpper]
  rfl

theorem upperFirst_append (hs : upperFirst s = s) (ht : upperFirst t = t) :
    upperFirst (s ++ t) = s ++ t := by
  cases s with
  | nil => exact ht
  | cons c s =>
    calc upperFirst (c :: s ++ t) = upperFirst (c :: s) ++ t := (List.append_assoc _ s t).symm
      _ = c :: s ++ t := by rw [hs]

/-- A name has no underscores, and its first character is a capital already. -/
theorem candidate_normal (hs : Run isSelectorChar s) :
    '_' ∉ snakeCase.candidate s ∧ upperFirst (snakeCase.candidate s) = snakeCase.candidate s := by
  induction s using induction_underscores with
  | hword w hw =>
    rw [candidate_of_word hw]
    cases w with
    | nil => exact ⟨List.not_mem_nil, rfl⟩
    | cons c w =>
      obtain ⟨hc, hw⟩ := List.ne_and_not_mem_of_not_mem_cons hw
      obtain ⟨hrun, -⟩ := run_cons.1 hs
      have hname : camelCase.candidate (c :: w) = c.toUpper :: w :=
        congrArg (· ++ w) (uppercase_of_isSelectorChar hrun)
      rw [hname]
      refine ⟨List.not_mem_cons_of_ne_of_not_mem (fun h => ?_) hw, upperFirst_capital hrun w⟩
      exact hc (eq_underscore_of_toUpper h.symm).symm
  | hjoin s t ihs iht =>
    obtain ⟨hs, ht⟩ := run_append.1 hs
    obtain ⟨hs, hs'⟩ := ihs hs
    obtain ⟨ht, ht'⟩ := iht (run_cons.1 ht).2
    rw [candidate_append]
    exact ⟨List.not_mem_append hs ht, upperFirst_append hs' ht'⟩

/-! ## Underscores that make no words -/

/-- The first text has one underscore more, at an end or next to another underscore. -/
inductive Respaced : List Char → List Char → Prop
  | leading (s : List Char) : Respaced ('_' :: s) s
  | trailing (s : List Char) : Respaced (s ++ ['_']) s
  | repeated (s t : List Char) : Respaced (s ++ '_' :: '_' :: t) (s ++ '_' :: t)

theorem words_cons (s : List Char) : words ('_' :: s) = words s := words_append [] s

theorem Respaced.words_eq (h : Respaced s t) : words s = words t := by
  cases h with
  | leading => exact words_cons t
  | trailing => rw [words_append, words_of_word List.not_mem_nil, List.append_right_eq_self]; rfl
  | repeated s t => rw [words_append, words_append, words_cons]

theorem words_eq_of_eqvGen (h : Relation.EqvGen Respaced s t) : words s = words t := by
  induction h with
  | rel s t h => exact h.words_eq
  | refl s => rfl
  | symm s t _ ih => exact ih.symm
  | trans r s t _ _ ih ih' => exact ih.trans ih'

/-- The selectors differ only in leading, trailing and repeated underscores. -/
def SameButUnderscores (t u : String) : Prop := Relation.EqvGen Respaced t.toList u.toList

/-! ## Property names -/

/-- **Under the convention with underscores a selector counts for its words only.** Its property
name is the names of its words in a row. The name has no underscores and is its own name under both
conventions; a selector without underscores has one name under both. An underscore between two
selectors stands between their names. Selectors that differ only in leading, trailing and repeated
underscores are resolved to one property, or to none, in every entity. -/
theorem snakeCase_by_words {t : String} (ht : Run isSelectorChar t.toList) :
    let name := snakeCase.propertyName
    (name t).toList = (words t.toList).flatMap upperFirst ∧
    '_' ∉ (name t).toList ∧
    name (name t) = name t ∧ camelCase.propertyName (name t) = name t ∧
    ('_' ∉ t.toList → name t = camelCase.propertyName t) ∧
    (∀ u, name (t ++ "_" ++ u) = name t ++ name u) ∧
    ∀ u, SameButUnderscores t u → name t = name u ∧ ∀ e : Entity,
      (∃ p, e.resolve .snakeCase t = .ok p ∧ e.resolve .snakeCase u = .ok p) ∨
        e.resolve .snakeCase t = .error ⟨e.name, t⟩ ∧
          e.resolve .snakeCase u = .error ⟨e.name, u⟩ := by
  intro name
  obtain ⟨hnone, hcapital⟩ := candidate_normal ht
  have hname (u : String) : (name u).toList = snakeCase.candidate u.toList := String.toList_ofList
  have hcamel : camelCase.propertyName (name t) = name t := by
    rw [propertyName, hname]
    exact congrArg String.ofList hcapital
  refine ⟨(hname t).trans (candidate_snakeCase _), (hname t).symm ▸ hnone, ?_, hcamel, ?_, ?_, ?_⟩
  · rw [← hname] at hnone
    exact (congrArg String.ofList (candidate_of_word hnone)).trans hcamel
  · exact fun hword => congrArg String.ofList (candidate_of_word hword)
  · intro u
    have hjoined : (t ++ "_" ++ u).toList = t.toList ++ '_' :: u.toList := by simp
    rw [← String.toList_inj, String.toList_append, hname, hname, hname, hjoined, candidate_append]
  · intro u hsame
    have heq : name t = name u := by
      rw [← String.toList_inj, hname, hname, candidate_snakeCase, candidate_snakeCase,
        words_eq_of_eqvGen hsame]
    refine ⟨heq, fun e => ?_⟩
    unfold Entity.resolve
    rw [show snakeCase.propertyName t = snakeCase.propertyName u from heq]
    cases e.property? (snakeCase.propertyName u) with
    | some p => exact .inl ⟨p, rfl, rfl⟩
    | none => exact .inr ⟨rfl, rfl⟩

/-- Underscores at both ends and a pair of them make no difference. -/
theorem snakeCase_by_words_underscores :
    let user : Entity := ⟨"User", [{ name := "IsActive", kind := .bool }], by decide⟩
    Run isSelectorChar "__is__active_".toList ∧ SameButUnderscores "__is__active_" "is_active" ∧
      snakeCase.propertyName "__is__active_" = snakeCase.propertyName "is_active" ∧
      snakeCase.propertyName "is_active" = "IsActive" ∧
      user.resolve .snakeCase "__is__active_" = .ok { name := "IsActive", kind := .bool } ∧
      user.resolve .snakeCase "is_active" = .ok { name := "IsActive", kind := .bool } := by
  intro user
  have hrun : Run isSelectorChar "__is__active_".toList := run_of_all rfl
  have hsame : SameButUnderscores "__is__active_" "is_active" := by
    have hleading : Relation.EqvGen Respaced "__is__active_".toList "is__active_".toList :=
      .trans _ _ _ (.rel _ _ (.leading "_is__active_".toList))
        (.rel _ _ (.leading "is__active_".toList))
    have hrepeated : Respaced "is__active_".toList "is_active_".toList :=
      .repeated "is".toList "active_".toList
    have htrailing : Respaced "is_active_".toList "is_active".toList :=
      .trailing "is_active".toList
    exact .trans _ _ _ hleading (.trans _ _ _ (.rel _ _ hrepeated) (.rel _ _ htrailing))
  obtain ⟨-, -, -, -, -, -, hall⟩ := snakeCase_by_words hrun
  obtain ⟨hname, hresolve⟩ := hall _ hsame
  have hfound : user.resolve .snakeCase "is_active" =
      .ok { name := "IsActive", kind := .bool } := by cbv
  refine ⟨hrun, hsame, hname, by cbv, ?_, hfound⟩
  rcases hresolve user with ⟨p, ht, hu⟩ | ⟨-, hu⟩
  · rw [ht, ← hu, hfound]
  · rw [hfound] at hu
    cases hu

end RecordFilter.Naming

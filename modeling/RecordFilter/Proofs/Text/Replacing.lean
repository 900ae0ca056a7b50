import Mathlib
import RecordFilter.Text.Search

/-!
# Searching and replacing

What a text has as a part, and what is left of it when all occurrences of a part are replaced. A
replacement walks through the text from the left: a part at its head is replaced as a whole, and
the search goes on behind it (`replaceAll_append_self`); otherwise one character is kept
(`replaceAll_cons_of_not`).
-/

namespace RecordFilter.Text

variable {part old new s t u : List Char} {c : Char}

/-! ## Replacing -/

theorem dropBeginning?_append (old s : List Char) : dropBeginning? old (old ++ s) = some s :=
  dropBeginning?_eq_some.2 rfl

@[simp] theorem replaceAll_nil : replaceAll old new [] = [] := by rw [replaceAll]

theorem replaceAll_cons_of_not (h : ¬ old <+: c :: s) :
    replaceAll old new (c :: s) = c :: replaceAll old new s := by
  rw [replaceAll]
  split
  · next rest hr => exact absurd ⟨rest, (dropBeginning?_eq_some.1 hr).symm⟩ h
  · rfl

theorem replaceAll_append_self (h : old ≠ []) :
    replaceAll old new (old ++ s) = new ++ replaceAll old new s := by
  obtain ⟨c, old, rfl⟩ := List.exists_cons_of_ne_nil h
  rw [List.cons_append, replaceAll]
  split
  · next rest hr =>
    rw [← List.cons_append, dropBeginning?_append] at hr
    cases hr
    simp
  · next hr =>
    rw [← List.cons_append, dropBeginning?_append] at hr
    cases hr

/-- A replacement, one step after the other. -/
theorem replaceAll_induction {P : List Char → Prop} (h : old ≠ []) (nil : P [])
    (found : ∀ s, P s → P (old ++ s)) (kept : ∀ c s, ¬ old <+: c :: s → P s → P (c :: s))
    (s : List Char) : P s := by
  induction hn : s.length using Nat.strong_induction_on generalizing s with
  | _ n ih =>
    subst hn
    cases s with
    | nil => exact nil
    | cons c s =>
      by_cases hp : old <+: c :: s
      · obtain ⟨rest, hr⟩ := hp
        have hlen := congrArg List.length hr
        have hpos := List.length_pos_iff.2 h
        simp only [List.length_append, List.length_cons] at hlen
        rw [← hr]
        exact found rest (ih rest.length (by simp; omega) rest rfl)
      · exact kept c s hp (ih s.length (by simp) s rfl)

/-- Where a replacement begins with a text without the new character, so does what it was made
from. -/
theorem prefix_of_prefix_replaceAll (h : old ≠ []) (hu : c ∉ u)
    (hpre : u <+: replaceAll old [c] s) : u <+: s := by
  induction s using replaceAll_induction h generalizing u with
  | nil => simpa using hpre
  | found s _ =>
    rw [replaceAll_append_self h, List.singleton_append] at hpre
    rcases List.prefix_cons_iff.1 hpre with rfl | ⟨t, rfl, -⟩
    · exact List.nil_prefix
    · simp at hu
  | kept d s hd ih =>
    rw [replaceAll_cons_of_not hd] at hpre
    rcases List.prefix_cons_iff.1 hpre with rfl | ⟨t, rfl, ht⟩
    · exact List.nil_prefix
    · exact List.cons_prefix_cons.2 ⟨rfl, ih (by simp_all) ht⟩

/-- What has been replaced is found no more. -/
theorem not_infix_replaceAll (h : old ≠ []) (hc : c ∉ old) : ¬ old <:+: replaceAll old [c] s := by
  induction s using replaceAll_induction h with
  | nil => simpa using h
  | found s ih =>
    rw [replaceAll_append_self h, List.singleton_append]
    intro hin
    rcases List.infix_cons_iff.1 hin with hpre | hin
    · rcases List.prefix_cons_iff.1 hpre with rfl | ⟨t, rfl, -⟩
      · exact h rfl
      · simp at hc
    · exact ih hin
  | kept d s hd ih =>
    rw [replaceAll_cons_of_not hd]
    intro hin
    rcases List.infix_cons_iff.1 hin with hpre | hin
    · rcases List.prefix_cons_iff.1 hpre with rfl | ⟨t, rfl, ht⟩
      · exact h rfl
      · have ht : t <+: s := prefix_of_prefix_replaceAll h (by simp_all) ht
        exact hd (List.cons_prefix_cons.2 ⟨rfl, ht⟩)
    · exact ih hin

end RecordFilter.Text

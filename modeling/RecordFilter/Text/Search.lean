/-!
# Searching and replacing

Occurrences of one text inside another, and the replacement of all of them, from the left and
without overlap.
-/

namespace RecordFilter.Text

/-- `part` occurs somewhere in the text. -/
def occurs (part : List Char) : List Char → Bool
  | [] => part.isEmpty
  | c :: s => part.isPrefixOf (c :: s) || occurs part s

theorem occurs_iff {part s : List Char} : occurs part s = true ↔ part <:+: s := by
  induction s with
  | nil => simp [occurs]
  | cons c s ih => simp [occurs, List.infix_cons_iff, ih]

theorem occurs_eq_false_iff {part s : List Char} : occurs part s = false ↔ ¬ part <:+: s := by
  rw [← Bool.not_eq_true, occurs_iff]

/-- The text after a given beginning, if it has that beginning. -/
def dropBeginning? : List Char → List Char → Option (List Char)
  | [], s => some s
  | _ :: _, [] => none
  | p :: ps, c :: s => if p = c then dropBeginning? ps s else none

theorem dropBeginning?_eq_some {p s r : List Char} :
    dropBeginning? p s = some r ↔ s = p ++ r := by
  fun_induction dropBeginning? p s with
  | case1 s => simp [eq_comm]
  | case2 => simp
  | case3 ps d s ih => simp [ih]
  | case4 p ps c s h => simp [Ne.symm h]

/-- The text with every occurrence of `old` replaced by `new`, searched from the left and without
overlap; an empty `old` is found nowhere. -/
def replaceAll (old new : List Char) (s : List Char) : List Char :=
  match s with
  | [] => []
  | c :: s =>
    match _h : dropBeginning? old (c :: s) with
    | some rest =>
      if _ho : old = [] then c :: replaceAll old new s else new ++ replaceAll old new rest
    | none => c :: replaceAll old new s
termination_by s.length
decreasing_by
  all_goals simp_wf
  have h := congrArg List.length (dropBeginning?_eq_some.1 _h)
  have := List.length_pos_iff.2 _ho
  simp at h
  omega

end RecordFilter.Text

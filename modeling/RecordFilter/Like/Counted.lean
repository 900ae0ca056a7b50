import RecordFilter.Like

/-!
# Counted markers

Markers that are numbers in the form of random identifiers of version 4, one number after the other
from a given one on. When all numbers of that form have been counted, the words grow by zeros.
-/

namespace RecordFilter.Like

open Text

/-- The last hexadecimal digits of a number, as many as are asked for. -/
def hexDigits : Nat → Nat → List Char
  | 0, _ => []
  | width + 1, n => hexDigits width (n / 16) ++ [Nat.digitChar (n % 16)]

/-- How many numbers have at most `width` hexadecimal digits. -/
def hexBound (width : Nat) : Nat := Nat.pow 16 width

/-- The digits of a number in the form of an identifier: the thirteenth digit is the version, and
the seventeenth says how the others are laid out. -/
def identifier (n : Nat) : List Char :=
  hexDigits 12 (n / hexBound 18) ++ '4' :: (hexDigits 3 (n / hexBound 15) ++ '8' :: hexDigits 15 n)

/-- The number of identifiers. -/
def identifiers : Nat := hexBound 30

/-- The marker that is counted as the `k`-th from a seed on. -/
def countedMarker (seed k : Nat) : List Char :=
  '<' :: (identifier (seed + k) ++ List.replicate (k / identifiers) '0' ++ ['>'])

/-- No digit is a character that markers may not have. -/
theorem ne_of_mem_hexDigits {width n : Nat} {c : Char} (h : c ∈ hexDigits width n) :
    c ≠ '<' ∧ c ≠ '>' ∧ c ≠ wildcard ∧ c ≠ '\\' := by
  induction width generalizing n with
  | zero => cases h
  | succ width ih =>
    rw [hexDigits, List.mem_append, List.mem_singleton] at h
    rcases h with h | rfl
    · exact ih h
    · have hdigit : ∀ d : Fin 16, Nat.digitChar d ≠ '<' ∧ Nat.digitChar d ≠ '>' ∧
          Nat.digitChar d ≠ wildcard ∧ Nat.digitChar d ≠ '\\' := by decide
      exact hdigit ⟨n % 16, Nat.mod_lt n (by decide)⟩

theorem isMarker_countedMarker (seed k : Nat) : IsMarker (countedMarker seed k) := by
  refine ⟨_, rfl, fun c hc => ?_⟩
  simp only [identifier, List.mem_append, List.mem_cons] at hc
  rcases hc with (hc | rfl | hc | rfl | hc) | hc
  · exact ne_of_mem_hexDigits hc
  · decide
  · exact ne_of_mem_hexDigits hc
  · decide
  · exact ne_of_mem_hexDigits hc
  · rw [List.eq_of_mem_replicate hc]
    decide

/-- A counted marker is longer than the number of times that all identifiers have been counted
before it. -/
theorem lt_length_countedMarker (seed k : Nat) :
    k / identifiers < (countedMarker seed k).length := by
  simp only [countedMarker, List.length_cons, List.length_append, List.length_replicate]
  omega

/-- The markers that are counted from a seed on. -/
def Draws.counted (seed : Nat) : Draws where
  marker := countedMarker seed
  isMarker := isMarker_countedMarker seed
  fresh text k := by
    refine ⟨text.length * identifiers, occurs_eq_false_iff.2 fun h => ?_⟩
    have hlong := lt_length_countedMarker seed (k + text.length * identifiers)
    rw [Nat.add_mul_div_right _ _ (by decide)] at hlong
    exact Nat.not_le.2 (Nat.lt_of_le_of_lt (Nat.le_add_left _ _) hlong) h.length_le

end RecordFilter.Like

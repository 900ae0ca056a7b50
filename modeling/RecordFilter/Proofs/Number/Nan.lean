import Mathlib
import RecordFilter.Number.Binary

/-!
# Where NaN comes from

Two floats fail to compare only if one of them is NaN (`compare_eq_none_iff`), so it matters which
operations can make one. Rounding makes none, and neither does changing the format of a number that
is none; a quotient needs a NaN, two infinities or two zeros (`div_ne_nan`); a text needs the word
(`read_ne_nan`).
-/

namespace RecordFilter.Number.Binary

open Text

variable {f g : Format}

/-! ## Order -/

/-- The order of floats leaves out NaN and nothing else. -/
theorem compare_eq_none_iff {x y : Binary f} : x.compare y = none ↔ x = nan ∨ y = nan := by
  cases x <;> cases y <;> simp [compare]

/-! ## Rounding -/

theorem ofParts_ne_nan (negative : Bool) (m : Nat) (e : Int) :
    (ofParts negative m e : Binary f) ≠ nan := by
  unfold ofParts
  split <;> nofun

theorem ofRatio_ne_nan (negative : Bool) (n d : Nat) :
    (ofRatio negative n d : Binary f) ≠ nan := by
  unfold ofRatio
  split
  · nofun
  · dsimp only
    split <;> exact ofParts_ne_nan _ _ _

theorem ofScientific_ne_nan (negative : Bool) (digits : Nat) (exponent : Int) :
    (ofScientific negative digits exponent : Binary f) ≠ nan := by
  unfold ofScientific
  dsimp only
  split
  · nofun
  split
  · nofun
  split
  · nofun
  · exact ofRatio_ne_nan _ _ _

theorem ofInt_ne_nan (n : Int) : (ofInt n : Binary f) ≠ nan := ofRatio_ne_nan _ _ _

/-! ## Operations -/

theorem convert_ne_nan {x : Binary f} (hx : x ≠ nan) : (x.convert : Binary g) ≠ nan := by
  cases x with
  | finite => exact ofRatio_ne_nan _ _ _
  | infinite => nofun
  | nan => exact absurd rfl hx

theorem neg_ne_nan {x : Binary f} (hx : x ≠ nan) : x.neg ≠ nan := by
  cases x with
  | finite => nofun
  | infinite => nofun
  | nan => exact absurd rfl hx

theorem ne_nan_of_isFinite {x : Binary f} (hx : x.isFinite = true) : x ≠ nan := by
  rintro rfl
  cases hx

/-- The number is finite and not zero, so everything can be divided by it. -/
def isDivisor : Binary f → Bool
  | finite _ m _ _ => m != 0
  | _ => false

theorem div_ne_nan {x y : Binary f} (hx : x ≠ nan) (hy : y.isDivisor = true) : x.div y ≠ nan := by
  cases y with
  | finite b n k hk =>
    have hn : n ≠ 0 := by simpa [isDivisor] using hy
    cases x with
    | finite a m e he =>
      rw [div, if_neg hn]
      exact ofRatio_ne_nan _ _ _
    | infinite => nofun
    | nan => exact absurd rfl hx
  | infinite => cases hy
  | nan => cases hy

/-! ## Reading -/

theorem toLower_of_isDigit {c : Char} (hc : c.isDigit = true) : c.toLower = c := by
  apply Char.toLower_eq_of_not_isUpper
  intro hupper
  simp only [Char.isDigit, Char.isUpper, Bool.and_eq_true, decide_eq_true_eq] at hc hupper
  exact absurd (UInt32.le_trans hupper.1 hc.2) (by decide)

/-- A word that is a number begins with no digit. -/
theorem ofWord?_eq_none {negative : Bool} {c : Char} {s : List Char} (hc : c.isDigit = true) :
    (ofWord? negative (c :: s) : Option (Binary f)) = none := by
  have hne {w : String} {d : Char} {ds : List Char} (hw : w.toList = d :: ds)
      (hd : d.isDigit = false) : String.ofList ((c :: s).map Char.toLower) ≠ w := by
    rintro rfl
    rw [String.toList_ofList, List.map_cons, toLower_of_isDigit hc] at hw
    rw [(List.cons.inj hw).1, hd] at hc
    cases hc
  unfold ofWord?
  dsimp only
  rw [if_neg, if_neg (hne (d := 'n') rfl rfl)]
  rintro (h | h)
  · exact hne (d := 'i') rfl rfl h
  · exact hne (d := 'i') rfl rfl h

/-- A text with a digit behind its sign is not read as NaN. -/
theorem read_ne_nan {s : List Char} {negative : Bool} {c : Char} {body : List Char}
    (hs : spanSign s = (negative, c :: body)) (hc : c.isDigit = true) :
    (read s : Option (Binary f)) ≠ some nan := by
  unfold read
  simp only [hs, ofWord?_eq_none hc]
  intro h
  split at h
  all_goals
    split at h
    · cases h
    · obtain ⟨e, -, he⟩ := Option.map_eq_some_iff.1 h
      exact ofScientific_ne_nan _ _ _ he

end RecordFilter.Number.Binary

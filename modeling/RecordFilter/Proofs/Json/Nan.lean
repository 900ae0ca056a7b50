import RecordFilter.Proofs.Json.Members
import RecordFilter.Proofs.Number.Nan

/-!
# No NaN in documents

A document that is read from a text has no number that is NaN (`nanFree_of_read`): a numeral has no
word for it, and the powers of ten by which its digits are divided are doubles above zero.
-/

namespace RecordFilter.Json

open RecordFilter.Number

/-! ## Documents -/

/-- The number is not NaN. -/
def Number.NotNan : Number → Prop
  | integer _ => True
  | float x => x ≠ .nan

mutual

/-- No number of the document is NaN. The type of documents leaves room for NaN, their texts do
not. -/
def NanFree : Json → Prop
  | null | bool _ | string _ => True
  | number n => n.NotNan
  | array items => NanFreeItems items
  | object members => NanFreeMembers members

/-- No number of the elements is NaN. -/
def NanFreeItems : List Json → Prop
  | [] => True
  | j :: rest => j.NanFree ∧ NanFreeItems rest

/-- No number of the members is NaN. -/
def NanFreeMembers : List (String × Json) → Prop
  | [] => True
  | (_, j) :: rest => j.NanFree ∧ NanFreeMembers rest

end

theorem nanFreeMembers_iff {members : List (String × Json)} :
    NanFreeMembers members ↔ ∀ m ∈ members, m.2.NanFree := by
  induction members with
  | nil => simp [NanFreeMembers]
  | cons m rest ih => rw [NanFreeMembers, List.forall_mem_cons, ih]

/-- The number as a double is not NaN. -/
theorem Number.NotNan.toDouble {n : Number} (h : n.NotNan) : n.toDouble ≠ .nan := by
  cases n with
  | integer n => exact Binary.ofInt_ne_nan n
  | float x => exact h

/-! ## Numerals -/

theorem powerOfTen_isDivisor {k : Nat} (hk : k ≤ maxPower) : (powerOfTen k).isDivisor = true := by
  have hall : ((List.range (maxPower + 1)).all fun k => (powerOfTen k).isDivisor) = true := by
    decide +kernel
  exact List.all_eq_true.1 hall k (List.mem_range.2 (Nat.lt_succ_of_le hk))

theorem scale_ne_nan {x y : Double} {e : Int} (hx : x ≠ .nan) (h : scale x e = some y) :
    y ≠ .nan := by
  fun_induction scale x e with
  | case1 x e he hzero =>
    cases h
    exact hx
  | case2 x e he hzero ih => exact ih (Binary.div_ne_nan hx (powerOfTen_isDivisor le_rfl)) h
  | case3 x e hmin hneg =>
    cases h
    exact Binary.div_ne_nan hx (powerOfTen_isDivisor (by omega))
  | case4 x e hmin hneg hmax z hfinite =>
    obtain rfl := Option.some.inj h
    exact Binary.ne_nan_of_isFinite hfinite
  | case5 => cases h
  | case6 =>
    cases h
    exact hx
  | case7 => cases h

theorem ofParts_notNan {negative : Bool} {significand : Nat} {e : Int} {n : Number}
    (h : ofParts negative significand e = some n) : n.NotNan := by
  obtain ⟨x, hx, rfl⟩ := Option.map_eq_some_iff.1 h
  have hnan := scale_ne_nan (Binary.ofInt_ne_nan _) hx
  cases negative with
  | false => exact hnan
  | true => exact Binary.neg_ne_nan hnan

theorem withExponent_notNan {negative below : Bool} {significand : Nat} {e : Int} {ds : List Char}
    {n : Number} (h : withExponent negative significand e below ds = some n) : n.NotNan := by
  unfold withExponent at h
  split at h
  · exact ofParts_notNan h
  split at h
  · cases h
    nofun
  · cases h

theorem ofWord_notNan {negative : Bool} {m : Nat} {n : Number} (h : ofWord negative m = some n) :
    n.NotNan := by
  unfold ofWord at h
  split at h
  · cases h
    trivial
  split at h
  · cases h
    trivial
  · cases h
    exact Binary.neg_ne_nan (Binary.ofInt_ne_nan _)

theorem Number.notNan_of_ofNumeral {m : Numeral} {n : Number} (h : ofNumeral m = some n) :
    n.NotNan := by
  unfold ofNumeral at h
  dsimp only at h
  split at h
  · exact withExponent_notNan h
  split at h
  · exact ofWord_notNan h
  · exact ofParts_notNan h

/-! ## Reading -/

theorem nanFreeItems_iff {items : List Json} : NanFreeItems items ↔ ∀ j ∈ items, j.NanFree := by
  induction items with
  | nil => simp [NanFreeItems]
  | cons j rest ih => rw [NanFreeItems, List.forall_mem_cons, ih]

theorem readClosed_nanFree : ReadClosed NanFree where
  null := trivial
  bool _ := trivial
  string _ := trivial
  number h := Number.notNan_of_ofNumeral h
  array h := nanFreeItems_iff.2 h
  object {given} h := by
    obtain ⟨members, hmembers, hgiven⟩ := exists_mem_ofMembers given
    rw [hmembers]
    exact nanFreeMembers_iff.2 fun m hm => h m (hgiven m hm)

/-- **A document read from a text has no NaN.** -/
theorem nanFree_of_read {s : List Char} {j : Json} (h : read s = some j) : j.NanFree :=
  readClosed_nanFree.of_isRead (isRead_of_read h)

end RecordFilter.Json

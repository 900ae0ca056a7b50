import RecordFilter.Proofs.Value.Comparing

/-!
# Where comparing is transitive

Three values of which the first is at most the second and the second at most the third are in line
(`compare_trans_iff`), unless the three comparisons look at the values in different ways:

* a negative infinity is less than every float and every float may be less than a decimal, but the
  infinity has no order to the decimal (`Apart`);
* a 64 bit integer is equal to the double to which it is rounded, and a third value that compares
  exactly tells the two numbers apart (`Blurred`).

These exceptions are all, and in each of them the three values are not in line.
-/

namespace RecordFilter.Value

open Number

variable {a b c n z v : Value} {o p : Ordering}

/-! ## Values in line -/

/-- The values compare as three elements of a linear order do. -/
structure Ranked {α : Type} [LinearOrder α] (a b c : Value) (x y z : α) : Prop where
  first : a.compare b = some (cmp x y)
  second : b.compare c = some (cmp y z)
  both : a.compare c = some (cmp x z)

section

variable {α : Type} [LinearOrder α] {x y z : α}

theorem cmp_eq_then (hxy : cmp x y ≠ .gt) (hyz : cmp y z ≠ .gt) :
    cmp x z = (cmp x y).then (cmp y z) := by
  rw [ne_eq, cmp_eq_gt_iff, not_lt] at hxy hyz
  rcases hxy.eq_or_lt with rfl | hlt
  · rw [cmp_self_eq_eq]
    rfl
  · rw [hlt.cmp_eq_lt, (hlt.trans_le hyz).cmp_eq_lt]
    rfl

theorem compare_flip (h : a.compare b = some (cmp x y)) : b.compare a = some (cmp y x) := by
  rw [compare_swap a b, h, Option.map_some, cmp_swap]

/-- What compares with another value is equal to itself. -/
theorem compare_self_of_compare (h : a.compare b = some o) : a.compare a = some .eq := by
  cases alike_of_compare h with
  | strings s t => rw [compare_string, cmp_self_eq_eq]
  | bools s t => rw [compare_bool, cmp_self_eq_eq]
  | dateTimes s t => rw [compare_dateTime, cmp_self_eq_eq]
  | documents hsame =>
    rw [compare_json, if_pos (Json.same_trans _ _ _ hsame (Json.same_comm _ _ ▸ hsame))]
  | numbers ha => exact compare_self_of_position? ha

namespace Ranked

theorem swap (h : Ranked a b c x y z) : Ranked b a c y x z :=
  ⟨compare_flip h.first, h.both, h.second⟩

theorem rotate (h : Ranked a b c x y z) : Ranked b c a y z x :=
  ⟨h.second, compare_flip h.both, compare_flip h.first⟩

theorem compare_get (h : Ranked a b c x y z) : ∀ i j : Fin 3,
    ([a, b, c].get i).compare ([a, b, c].get j) = some (cmp (![x, y, z] i) (![x, y, z] j))
  | 0, 0 => (compare_self_of_compare h.first).trans (by simp)
  | 0, 1 => h.first
  | 0, 2 => h.both
  | 1, 0 => compare_flip h.first
  | 1, 1 => (compare_self_of_compare h.second).trans (by simp)
  | 1, 2 => h.second
  | 2, 0 => compare_flip h.both
  | 2, 1 => compare_flip h.second
  | 2, 2 => (compare_self_of_compare (compare_flip h.second)).trans (by simp)

/-- Equal values compare alike with each of the three. -/
theorem compare_eq_of_eq (h : Ranked a b c x y z) {u v w : Value} (hu : u ∈ [a, b, c])
    (hv : v ∈ [a, b, c]) (hw : w ∈ [a, b, c]) (heq : u.compare v = some .eq) :
    u.compare w = v.compare w := by
  obtain ⟨i, rfl⟩ := List.mem_iff_get.1 hu
  obtain ⟨j, rfl⟩ := List.mem_iff_get.1 hv
  obtain ⟨k, rfl⟩ := List.mem_iff_get.1 hw
  rw [h.compare_get i j, Option.some_inj, cmp_eq_eq_iff] at heq
  rw [h.compare_get i k, h.compare_get j k, heq]

theorem compare_then (h : Ranked a b c x y z) (hab : a.compare b = some o)
    (hbc : b.compare c = some p) (ho : o ≠ .gt) (hp : p ≠ .gt) :
    a.compare c = some (o.then p) := by
  obtain rfl := Option.some.inj (h.first.symm.trans hab)
  obtain rfl := Option.some.inj (h.second.symm.trans hbc)
  rw [h.both, cmp_eq_then ho hp]

end Ranked

/-- Three numbers in given orders. -/
theorem exists_cmp (ho : o ≠ .gt) (hp : p ≠ .gt) : ∃ x y z : ℤ, cmp x y = o ∧ cmp y z = p := by
  cases o with
  | gt => exact absurd rfl ho
  | lt =>
    cases p with
    | gt => exact absurd rfl hp
    | lt => exact ⟨0, 1, 2, rfl, rfl⟩
    | eq => exact ⟨0, 1, 1, rfl, rfl⟩
  | eq =>
    cases p with
    | gt => exact absurd rfl hp
    | lt => exact ⟨0, 0, 1, rfl, rfl⟩
    | eq => exact ⟨0, 0, 0, rfl, rfl⟩

theorem exists_ranked (hab : a.compare b = some o) (hbc : b.compare c = some p) (ho : o ≠ .gt)
    (hp : p ≠ .gt) (hac : a.compare c = some (o.then p)) : ∃ x y z : ℤ, Ranked a b c x y z := by
  obtain ⟨x, y, z, rfl, rfl⟩ := exists_cmp ho hp
  exact ⟨x, y, z, hab, hbc, by rw [hac, cmp_eq_then ho hp]⟩

end

/-! ## Two numbers that become equal -/

/-- A 64 bit integer and a float that are two numbers and compare as equal. -/
structure Merged (n z : Value) : Prop where
  int64 : n.kind = .int64
  float : z.IsFloat
  equal : n.compare z = some .eq
  ne : n.position? ≠ z.position?

/-- The value does not compare alike with an integer and a float: it is another integer that becomes
the float, or a decimal that is one of the two or between them. -/
def TellsApart (n z v : Value) : Prop :=
  v.kind = .int64 ∧ v.compare z = some .eq ∧ v.position? ≠ n.position? ∨
    v.kind = .decimal ∧ ∃ x y w, n.Denotes x ∧ z.Denotes y ∧ v.Denotes w ∧ w ∈ Set.uIcc x y

/-- Two of the values are a number that a comparison makes equal, and one tells them apart. -/
def Blurred (l : List Value) : Prop := ∃ n ∈ l, ∃ z ∈ l, ∃ v ∈ l, Merged n z ∧ TellsApart n z v

/-- A 64 bit integer and the double that floats see in its place. -/
theorem exists_rounded? (h : a.kind = .int64) :
    ∃ (i : ℤ) (q : ℚ), a.toInt? = some i ∧ a.rounded? = some (.ofRat q) ∧ Rounded i q := by
  cases a with
  | int64 n =>
    have hlt := n.toInt_lt
    have hle := n.le_toInt
    obtain ⟨q, hq, hround⟩ :=
      Binary.exists_rounded_ofInt (n := n.toInt) (show n.toInt.natAbs ≤ 2 ^ 63 by omega)
    exact ⟨n.toInt, q, rfl, hq, hround⟩
  | _ => cases h

/-- A 64 bit integer compares with a float as the nearest double does. -/
theorem compare_of_float {i : ℤ} {q : ℚ} {s : Line} (hi : n.toInt? = some i)
    (hq : n.rounded? = some (.ofRat q)) (hz : z.IsFloat) (hs : z.position? = some s) :
    n.compare z = some (cmp (.ofRat q) s) := by
  have hdecimal : n.kind ≠ .decimal := by
    cases n with
    | decimal => cases hi
    | _ => nofun
  exact compare_of_rounded? hq (hz.rounded? hs) hdecimal hz.ne_decimal (.inr hz.toInt?_eq_none)

theorem IsFloat.exists_position? (hz : z.IsFloat) (h : n.compare z = some o) :
    ∃ s, z.position? = some s := by
  cases alike_of_compare h with
  | numbers _ hs => exact ⟨_, hs⟩
  | _ => exact hz.elim nofun nofun

theorem Merged.exists_rounded (h : Merged n z) : ∃ (i : ℤ) (y : ℚ), n.toInt? = some i ∧
    n.rounded? = some (.ofRat y) ∧ z.Denotes y ∧ Rounded i y ∧ (i : ℚ) ≠ y := by
  obtain ⟨i, q, hi, hq, hround⟩ := exists_rounded? h.int64
  obtain ⟨s, hs⟩ := h.float.exists_position? h.equal
  have hequal := h.equal
  rw [compare_of_float hi hq h.float hs, Option.some_inj, cmp_eq_eq_iff] at hequal
  subst hequal
  refine ⟨i, q, hi, hq, hs, hround, fun heq => h.ne ?_⟩
  rw [position?_of_toInt? hi, hs, heq]

theorem Merged.tellsApart_iff_of_decimal {s : Line} (h : Merged n z) (hv : v.position? = some s)
    (hdecimal : v.kind = .decimal) : TellsApart n z v ↔ n.compare v ≠ z.compare v := by
  obtain ⟨i, y, hi, -, hz, -, hne⟩ := h.exists_rounded
  have hx : n.Denotes i := position?_of_toInt? hi
  obtain ⟨w, rfl, hw⟩ := exists_denotes_of_not_isInfinite hv (not_isInfinite_of_decimal hdecimal)
  rw [compare_of_decimal (.inr hdecimal) hx hw, compare_of_decimal (.inr hdecimal) hz hw, ne_eq,
    Option.some_inj, ← ne_eq, cmp_ne_cmp_iff hne]
  constructor
  · rintro (⟨hint, -⟩ | ⟨-, x, y', w', hx', hy', hw', hmem⟩)
    · rw [hdecimal] at hint
      cases hint
    · obtain rfl := Line.ofRat_injective (Option.some.inj (hx.symm.trans hx'))
      obtain rfl := Line.ofRat_injective (Option.some.inj (hz.symm.trans hy'))
      obtain rfl := Line.ofRat_injective (Option.some.inj (hw.symm.trans hw'))
      exact hmem
  · exact fun hmem => .inr ⟨hdecimal, i, y, w, hx, hz, hw, hmem⟩

theorem rounded?_eq_of_toInt? (ha : a.kind = .int64) (hb : b.kind = .int64)
    (h : a.toInt? = b.toInt?) : a.rounded? = b.rounded? := by
  cases a with
  | int64 m =>
    cases b with
    | int64 n => exact congrArg (fun i => (Binary.ofInt i : Double).position?) (Option.some.inj h)
    | _ => cases hb
  | _ => cases ha

theorem Merged.tellsApart_iff_of_int64 (h : Merged n z) (hint : v.kind = .int64) :
    TellsApart n z v ↔ n.compare v ≠ z.compare v := by
  obtain ⟨i, y, hi, hn, hz, hround, -⟩ := h.exists_rounded
  obtain ⟨k, r, hk, hr, hround'⟩ := exists_rounded? hint
  have hflip : v.compare z = some (cmp r y) :=
    (compare_of_float hk hr h.float hz).trans (by rw [Line.cmp_ofRat])
  have htells : TellsApart n z v ↔ r = y ∧ k ≠ i := by
    rw [TellsApart, hint, hflip, position?_of_toInt? hk, position?_of_toInt? hi]
    simp [Line.ofRat_injective.eq_iff]
  rw [htells, compare_of_toInt? hi hk, compare_flip hflip, (Option.some_injective _).ne_iff]
  rcases eq_or_ne k i with rfl | hne
  · -- the same integer, so it becomes the float as well
    have hsame := rounded?_eq_of_toInt? h.int64 hint (hi.trans hk.symm)
    obtain rfl := Line.ofRat_injective (Option.some.inj (hn.symm.trans (hsame.trans hr)))
    rw [cmp_self_eq_eq, cmp_self_eq_eq]
    exact iff_of_false (fun h => h.2 rfl) fun h => h rfl
  · rcases eq_or_ne r y with rfl | hr
    · refine iff_of_true ⟨rfl, hne⟩ fun heq => hne ?_
      rw [cmp_self_eq_eq, cmp_eq_eq_iff] at heq
      exact heq.symm
    · have hcast : (i : ℚ) ≠ k := Int.cast_injective.ne hne.symm
      rw [hround.cmp_eq_of_ne hround' hcast hr.symm, cmp_intCast]
      exact iff_of_false (fun h => hr h.1) fun h => h rfl

/-- Numbers of other kinds compare with floats only, or are too small to be merged. -/
theorem Merged.compare_eq_of_other {s : Line} (h : Merged n z) (hv : v.position? = some s)
    (hdecimal : v.kind ≠ .decimal) (hint : v.kind ≠ .int64) : n.compare v = z.compare v := by
  obtain ⟨i, y, hi, hn, hz, hround, -⟩ := h.exists_rounded
  have hv' := (rounded?_of_ne_int64 hint).trans hv
  rw [compare_of_rounded? (h.float.rounded? hz) hv' h.float.ne_decimal hdecimal
    (.inl h.float.toInt?_eq_none)]
  cases hk : v.toInt? with
  | none => exact compare_of_float hi hn (isFloat_of_position? hv hdecimal hk) hv
  | some k =>
    obtain rfl := Option.some.inj ((position?_of_toInt? hk).symm.trans hv)
    rw [compare_of_toInt? hi hk, Line.cmp_ofRat, hround.cmp_ofInt (natAbs_toInt?_lt hk hint)]

/-- **A value tells two merged numbers apart** if it does not compare alike with them. -/
theorem Merged.tellsApart_iff {s : Line} (h : Merged n z) (hv : v.position? = some s) :
    TellsApart n z v ↔ n.compare v ≠ z.compare v := by
  by_cases hdecimal : v.kind = .decimal
  · exact h.tellsApart_iff_of_decimal hv hdecimal
  by_cases hint : v.kind = .int64
  · exact h.tellsApart_iff_of_int64 hint
  refine iff_of_false ?_ fun hne => hne (h.compare_eq_of_other hv hdecimal hint)
  rintro (⟨hint', -⟩ | ⟨hdecimal', -⟩)
  · exact hint hint'
  · exact hdecimal hdecimal'

/-! ## Which comparisons are not exact -/

/-- A 64 bit integer and a float that do not compare as their points are merged. -/
theorem merged_of_compare_ne {s t : Line} (hint : n.kind = .int64) (hfloat : z.IsFloat)
    (hn : n.position? = some s) (hz : z.position? = some t) (hne : n.compare z ≠ some (cmp s t)) :
    Merged n z := by
  obtain ⟨i, q, hi, hq, hround⟩ := exists_rounded? hint
  obtain rfl := Option.some.inj ((position?_of_toInt? hi).symm.trans hn)
  have hcompare := compare_of_float hi hq hfloat hz
  rw [hcompare, (Option.some_injective _).ne_iff] at hne
  rcases t.cases_point with rfl | rfl | ⟨y, rfl⟩
  · rw [(Line.bot_lt_ofRat q).cmp_eq_gt, (Line.bot_lt_ofRat i).cmp_eq_gt] at hne
    exact absurd rfl hne
  · rw [(Line.ofRat_lt_top q).cmp_eq_lt, (Line.ofRat_lt_top i).cmp_eq_lt] at hne
    exact absurd rfl hne
  · obtain ⟨w, -, hw⟩ := exists_toDouble? (hfloat.rounded? hz) hfloat.ne_decimal
    rw [Line.cmp_ofRat, Line.cmp_ofRat] at hne
    have heq : cmp q y = .eq := (hround.cmp_eq_or hw).resolve_right hne
    refine ⟨hint, hfloat, by rw [hcompare, Line.cmp_ofRat, heq], fun hpoint => hne ?_⟩
    rw [heq, Denotes.unique hn (hpoint.trans hz), cmp_self_eq_eq]

/-- **Two numbers that do not compare as their points** are merged, in one order or the other. -/
theorem merged_or_merged {s t : Line} (ha : a.position? = some s) (hb : b.position? = some t)
    (hapart : ¬ a.Apart b) (hne : a.compare b ≠ some (cmp s t)) : Merged a b ∨ Merged b a := by
  by_contra hmerged
  obtain ⟨hmerged, hmerged'⟩ := not_or.1 hmerged
  refine hne (compare_eq_cmp ha hb ?_ hapart)
  rintro (⟨hint, hfloat⟩ | ⟨hfloat, hint⟩)
  · exact hmerged (merged_of_compare_ne hint hfloat ha hb hne)
  · exact hmerged' (merged_of_compare_ne hint hfloat hb ha fun h => hne (compare_flip h))

/-- Two equal values and a third with which they compare alike are in line. -/
theorem exists_ranked_of_eq (hab : a.compare b = some .eq) (hac : a.compare c = b.compare c)
    (hbc : b.compare c = some o) : ∃ x y z : ℤ, Ranked a b c x y z := by
  obtain ⟨k, rfl⟩ : ∃ k : ℤ, cmp 0 k = o := by
    cases o with
    | lt => exact ⟨1, rfl⟩
    | eq => exact ⟨0, rfl⟩
    | gt => exact ⟨-1, rfl⟩
  exact ⟨0, 0, k, hab, hbc, hac.trans hbc⟩

/-- **Numbers are in line** if two of them do not compare as their points but the third one does not
tell them apart. -/
theorem exists_ranked_of_compare_ne {l : List Value} {s t u : Line} (ha : a.position? = some s)
    (hb : b.position? = some t) (hc : c.position? = some u) (hapart : ¬ a.Apart b)
    (hne : a.compare b ≠ some (cmp s t)) (hbc : b.compare c = some o) (hclear : ¬ Blurred l)
    (hal : a ∈ l) (hbl : b ∈ l) (hcl : c ∈ l) : ∃ x y z : ℤ, Ranked a b c x y z := by
  rcases merged_or_merged ha hb hapart hne with h | h
  · have halike : a.compare c = b.compare c := by
      by_contra htells
      exact hclear ⟨a, hal, b, hbl, c, hcl, h, (h.tellsApart_iff hc).2 htells⟩
    exact exists_ranked_of_eq h.equal halike hbc
  · have halike : b.compare c = a.compare c := by
      by_contra htells
      exact hclear ⟨b, hbl, a, hal, c, hcl, h, (h.tellsApart_iff hc).2 htells⟩
    obtain ⟨x, y, z, hranked⟩ := exists_ranked_of_eq h.equal halike (halike.symm.trans hbc)
    exact ⟨y, x, z, hranked.swap⟩

theorem not_apart_of_compare (h : a.compare b = some o) : ¬ a.Apart b := by
  intro hapart
  rw [compare_of_apart hapart] at h
  cases h

/-- **Three numbers are in line** if the outer two compare and none is told apart from another. -/
theorem compare_then_of_position? {s t u : Line} (ha : a.position? = some s)
    (hb : b.position? = some t) (hc : c.position? = some u) (hab : a.compare b = some o)
    (hbc : b.compare c = some p) (ho : o ≠ .gt) (hp : p ≠ .gt) (hapart : ¬ a.Apart c)
    (hclear : ¬ Blurred [a, b, c]) : a.compare c = some (o.then p) := by
  have hba : b.compare a = some o.swap := by rw [compare_swap a b, hab, Option.map_some]
  have hcb : c.compare b = some p.swap := by rw [compare_swap b c, hbc, Option.map_some]
  by_cases hfirst : a.compare b = some (cmp s t)
  · by_cases hsecond : b.compare c = some (cmp t u)
    · by_cases hboth : a.compare c = some (cmp s u)
      · exact Ranked.compare_then ⟨hfirst, hsecond, hboth⟩ hab hbc ho hp
      · obtain ⟨x, y, z, h⟩ := exists_ranked_of_compare_ne ha hc hb hapart hboth hcb hclear
          (by simp) (by simp) (by simp)
        exact h.rotate.rotate.swap.compare_then hab hbc ho hp
    · obtain ⟨x, y, z, h⟩ := exists_ranked_of_compare_ne hc hb ha (not_apart_of_compare hcb)
        (fun h => hsecond (compare_flip h)) hba hclear (by simp) (by simp) (by simp)
      exact h.rotate.swap.compare_then hab hbc ho hp
  · obtain ⟨x, y, z, h⟩ := exists_ranked_of_compare_ne ha hb hc (not_apart_of_compare hab) hfirst
      hbc hclear (by simp) (by simp) (by simp)
    exact h.compare_then hab hbc ho hp

/-! ## Main statement -/

theorem then_ne_gt (ho : o ≠ .gt) (hp : p ≠ .gt) : o.then p ≠ .gt := by
  cases o with
  | gt => exact ho
  | lt => nofun
  | eq => exact hp

theorem compare_then_iff (ho : o ≠ .gt) (hp : p ≠ .gt) :
    a.compare c = some (o.then p) ↔
      ∃ r, a.compare c = some r ∧ r ≠ .gt ∧ (r = .eq ↔ o = .eq ∧ p = .eq) := by
  have hthen := then_ne_gt ho hp
  simp only [← Ordering.then_eq_eq]
  constructor
  · exact fun h => ⟨_, h, hthen, Iff.rfl⟩
  · rintro ⟨r, h, hr, heq⟩
    rw [h, Option.some_inj]
    -- two orders are left, and `heq` says which one it is
    cases r <;> cases hq : o.then p <;> simp_all

theorem TellsApart.exists_position? (h : TellsApart n z v) : ∃ s, v.position? = some s := by
  rcases h with ⟨hint, -⟩ | ⟨-, _, _, _, -, -, hw, -⟩
  · obtain ⟨_, _, hi, -⟩ := exists_rounded? hint
    exact ⟨_, position?_of_toInt? hi⟩
  · exact ⟨_, hw⟩

/-- **Comparing is not transitive.** An integer that is no double equals the double below it, which
equals the integer there, and which is less than a decimal in between; a negative infinity is less
than zero and zero is less than a decimal, with which the infinity does not compare. -/
theorem compare_not_transitive :
    let n := int64 9007199254740993
    let z := float64 (.finite false 4503599627370496 1 (by decide))
    let i := float64 (.infinite true)
    let zero := float64 (.zero false)
    (n.compare z = some .eq ∧ z.compare (int64 9007199254740992) = some .eq ∧
        n.compare (int64 9007199254740992) = some .gt) ∧
      (n.compare z = some .eq ∧ z.compare (decimal ⟨90071992547409925, 1⟩) = some .lt ∧
        n.compare (decimal ⟨90071992547409925, 1⟩) = some .gt) ∧
      i.compare zero = some .lt ∧ zero.compare (decimal ⟨1, 0⟩) = some .lt ∧
        i.compare (decimal ⟨1, 0⟩) = none := by
  decide +kernel

/-- **Comparing is transitive** but for two exceptions. Let the first value be at most the second
and the second at most the third. Then the first is at most the third, and equal to it just if both
steps are equalities, unless the two are an infinite float and a decimal, or one of the three tells
a 64 bit integer apart from a float that it becomes. With these exceptions it is never so. -/
theorem compare_trans_iff (hab : a.compare b = some o) (hbc : b.compare c = some p) (ho : o ≠ .gt)
    (hp : p ≠ .gt) :
    (∃ r, a.compare c = some r ∧ r ≠ .gt ∧ (r = .eq ↔ o = .eq ∧ p = .eq)) ↔
      ¬ a.Apart c ∧ ¬ Blurred [a, b, c] := by
  rw [← compare_then_iff ho hp]
  constructor
  · intro hac
    refine ⟨not_apart_of_compare hac, ?_⟩
    rintro ⟨n, hn, z, hz, v, hv, hmerged, htells⟩
    obtain ⟨x, y, w, hranked⟩ := exists_ranked hab hbc ho hp hac
    obtain ⟨s, hs⟩ := htells.exists_position?
    exact (hmerged.tellsApart_iff hs).1 htells (hranked.compare_eq_of_eq hn hz hv hmerged.equal)
  · rintro ⟨hapart, hclear⟩
    cases alike_of_compare hab with
    | strings s t =>
      cases alike_of_compare hbc with
      | strings _ u =>
        exact Ranked.compare_then ⟨compare_string s t, compare_string t u, compare_string s u⟩ hab
          hbc ho hp
      | numbers h => cases h
    | bools s t =>
      cases alike_of_compare hbc with
      | bools _ u =>
        exact Ranked.compare_then ⟨compare_bool s t, compare_bool t u, compare_bool s u⟩ hab hbc
          ho hp
      | numbers h => cases h
    | dateTimes s t =>
      cases alike_of_compare hbc with
      | dateTimes _ u =>
        exact Ranked.compare_then ⟨compare_dateTime s t, compare_dateTime t u, compare_dateTime s u⟩
          hab hbc ho hp
      | numbers h => cases h
    | documents h =>
      cases alike_of_compare hbc with
      | documents h' =>
        rw [compare_json, if_pos h] at hab
        rw [compare_json, if_pos h'] at hbc
        cases hab
        cases hbc
        rw [compare_json, if_pos (Json.same_trans _ _ _ h h')]
        rfl
      | numbers h => cases h
    | numbers ha hb =>
      cases alike_of_compare hbc with
      | numbers _ hc => exact compare_then_of_position? ha hb hc hab hbc ho hp hapart hclear
      | _ => cases hb

/-- The least integer that is no double becomes the double below it; a decimal above both of them
keeps its place. -/
theorem compare_trans_iff_rounded :
    let a := int64 9007199254740993
    let b := float64 (.finite false 4503599627370496 1 (by decide))
    let c := decimal ⟨90071992547409931, 1⟩
    a.compare b = some .eq ∧ b.compare c = some .lt ∧
      a.compare c = some .lt ∧ ¬ a.Apart c ∧ ¬ Blurred [a, b, c] := by
  intro a b c
  have hab : a.compare b = some .eq := by decide +kernel
  have hbc : b.compare c = some .lt := by decide +kernel
  have hac : a.compare c = some .lt := by decide +kernel
  exact ⟨hab, hbc, hac, (compare_trans_iff hab hbc nofun nofun).1 ⟨.lt, hac, nofun, nofun, nofun⟩⟩

end RecordFilter.Value

import RecordFilter.Proofs.Json.Same
import RecordFilter.Proofs.Record.Values
import RecordFilter.Value.Order

/-!
# What a comparison of values says

A number that is not NaN stands at a point of the number line. Two numbers compare as their points
(`compare_eq_cmp`), with two exceptions: a 64 bit integer is rounded to a double before it is
compared with a float (`compare_of_rounded?`), and an infinite float does not compare with a decimal
(`compare_of_apart`). Values of the other kinds compare as the elements of a linear order, or as
documents (`alike_of_compare`). So both orders of a pair say the same (`compare_swap`), and a value
is equal to itself if it is there and free of NaN (`equal_self_iff`).
-/

namespace RecordFilter

open Calendar Number

/-! ## Points in time -/

theorem Number.cmp_toLex {α β : Type} [LinearOrder α] [LinearOrder β] (a c : α) (b d : β) :
    cmp (toLex (a, b)) (toLex (c, d)) = (cmp a c).then (cmp b d) := by
  rcases lt_trichotomy a c with hlt | rfl | hgt
  · rw [hlt.cmp_eq_lt, (Prod.Lex.toLex_lt_toLex.2 (.inl hlt)).cmp_eq_lt]
    rfl
  · have hmono : StrictMono fun x : β => toLex (a, x) :=
      fun _ _ h => Prod.Lex.toLex_lt_toLex.2 (.inr ⟨rfl, h⟩)
    rw [cmp_self_eq_eq]
    exact hmono.cmp_map_eq b d
  · rw [hgt.cmp_eq_gt, (Prod.Lex.toLex_lt_toLex.2 (.inl hgt)).cmp_eq_gt]
    rfl

/-- The parts of a point in time, the longest span first. -/
def Calendar.DateTime.parts (t : DateTime) : ℤ ×ₗ ℕ ×ₗ ℕ ×ₗ ℕ ×ₗ ℕ :=
  toLex (t.date.year, toLex (t.date.month, toLex (t.date.day, toLex (t.second, t.nano))))

theorem Calendar.DateTime.compare_eq_cmp (a b : DateTime) : a.compare b = cmp a.parts b.parts := by
  simp only [compare, Date.compare, parts, cmp_toLex, compareOfLessAndEq_eq_cmp,
    Ordering.then_assoc]

namespace Value

variable {a b : Value} {p q : Line} {x y : ℚ}

/-! ## Points of numbers -/

/-- The point at which a number stands. -/
def position? : Value → Option Line
  | float32 x => x.position?
  | float64 x => x.position?
  | decimal d => some (.ofRat d.value)
  | v => v.toInt?.map fun n => .ofRat n

/-- The value is a finite number, namely `x`. -/
def Denotes (a : Value) (x : ℚ) : Prop := a.position? = some (.ofRat x)

/-- The value is a float without end. -/
def IsInfinite (a : Value) : Prop := a.position? = some ⊥ ∨ a.position? = some ⊤

/-- The value is a float of either width. -/
def IsFloat (a : Value) : Prop := a.kind = .float32 ∨ a.kind = .float64

/-- The point at which a float sees a number: a 64 bit integer as the nearest double. -/
def rounded? : Value → Option Line
  | int64 n => (Binary.ofInt n.toInt : Double).position?
  | v => v.position?

theorem Denotes.unique (hx : a.Denotes x) (hy : a.Denotes y) : x = y :=
  Line.ofRat_injective (Option.some.inj (hx.symm.trans hy))

theorem Denotes.not_isInfinite (ha : a.Denotes x) : ¬ a.IsInfinite := by
  rintro (h | h)
  · exact (Line.bot_lt_ofRat x).ne (Option.some.inj (h.symm.trans ha))
  · exact (Line.ofRat_lt_top x).ne' (Option.some.inj (h.symm.trans ha))

theorem exists_denotes_of_not_isInfinite (ha : a.position? = some p) (h : ¬ a.IsInfinite) :
    ∃ x, p = .ofRat x ∧ a.Denotes x := by
  rcases p.cases_point with rfl | rfl | ⟨x, rfl⟩
  · exact absurd (.inl ha) h
  · exact absurd (.inr ha) h
  · exact ⟨x, rfl, ha⟩

theorem not_isInfinite_of_decimal (h : a.kind = .decimal) : ¬ a.IsInfinite := by
  cases a with
  | decimal d => exact Denotes.not_isInfinite (x := d.value) rfl
  | _ => cases h

theorem position?_of_toInt? {n : ℤ} (h : a.toInt? = some n) : a.position? = some (.ofRat n) := by
  cases a <;> cases h <;> rfl

/-- **The numbers stand on the line**, except NaN. -/
theorem exists_position?_iff :
    (∃ p, a.position? = some p) ↔ a.kind.isNumeric = true ∧ a.NotNan := by
  rw [← Option.ne_none_iff_exists']
  cases a with
  | int16 | int32 | int64 | decimal => exact iff_of_true nofun ⟨rfl, trivial⟩
  | float32 x => exact (not_congr Binary.position?_eq_none_iff).trans (and_iff_right rfl).symm
  | float64 x => exact (not_congr Binary.position?_eq_none_iff).trans (and_iff_right rfl).symm
  | _ => exact iff_of_false (fun h => h rfl) nofun

theorem rounded?_of_ne_int64 (h : a.kind ≠ .int64) : a.rounded? = a.position? := by
  cases a with
  | int64 => exact absurd rfl h
  | _ => rfl

theorem IsFloat.ne_int64 (h : a.IsFloat) : a.kind ≠ .int64 := by
  rcases h with h | h <;> rw [h] <;> nofun

theorem IsFloat.ne_decimal (h : a.IsFloat) : a.kind ≠ .decimal := by
  rcases h with h | h <;> rw [h] <;> nofun

theorem IsFloat.toInt?_eq_none (h : a.IsFloat) : a.toInt? = none := by
  cases a with
  | int16 | int32 | int64 => exact h.elim nofun nofun
  | _ => rfl

/-- A float sees another one where it is. -/
theorem IsFloat.rounded? (h : a.IsFloat) (ha : a.position? = some p) : a.rounded? = some p :=
  (rounded?_of_ne_int64 h.ne_int64).trans ha

/-- A number is an integer, a float or a decimal. -/
theorem isFloat_of_position? (ha : a.position? = some p) (hdecimal : a.kind ≠ .decimal)
    (hint : a.toInt? = none) : a.IsFloat := by
  cases a with
  | float32 => exact .inl rfl
  | float64 => exact .inr rfl
  | decimal => exact absurd rfl hdecimal
  | int16 | int32 | int64 => cases hint
  | _ => cases ha

/-- The decimal of a finite number. -/
theorem Denotes.exists_toDecimal? (ha : a.Denotes x) :
    ∃ d, a.toDecimal? = some d ∧ d.value = x := by
  cases a with
  | int16 | int32 | int64 =>
    exact ⟨_, rfl, (Decimal.value_ofInt _).trans (Line.ofRat_injective (Option.some.inj ha))⟩
  | float32 => exact Binary.exists_toDecimal? ha
  | float64 => exact Binary.exists_toDecimal? ha
  | decimal d => exact ⟨d, rfl, Line.ofRat_injective (Option.some.inj ha)⟩
  | _ => cases ha

theorem IsInfinite.toDecimal?_eq_none (ha : a.IsInfinite) : a.toDecimal? = none := by
  cases a with
  | int16 | int32 | int64 | decimal => exact absurd ha (Denotes.not_isInfinite rfl)
  | float32 x | float64 x =>
    cases x with
    | finite => exact absurd ha (Denotes.not_isInfinite rfl)
    | _ => rfl
  | _ => rfl

/-- Integers of fewer than 64 bits are doubles, and so are their neighbours. -/
theorem natAbs_toInt?_lt {k : ℤ} (hk : a.toInt? = some k) (hne : a.kind ≠ .int64) :
    k.natAbs + 1 < twoPow Format.double.precision := by
  cases a with
  | int16 n =>
    obtain rfl := Option.some.inj hk
    have := n.toInt_lt
    have := n.le_toInt
    exact (show n.toInt.natAbs + 1 < 2 ^ 53 by omega)
  | int32 n =>
    obtain rfl := Option.some.inj hk
    have := n.toInt_lt
    have := n.le_toInt
    exact (show n.toInt.natAbs + 1 < 2 ^ 53 by omega)
  | int64 => exact absurd rfl hne
  | _ => cases hk

/-- The double of a number. -/
theorem exists_toDouble? (ha : a.rounded? = some p) (hdecimal : a.kind ≠ .decimal) :
    ∃ z, a.toDouble? = some z ∧ z.position? = some p := by
  cases a with
  | int16 n =>
    have hlt := natAbs_toInt?_lt (a := int16 n) rfl nofun
    exact ⟨_, rfl, (Binary.position?_ofInt (Nat.lt_of_succ_lt hlt)).trans ha⟩
  | int32 n =>
    have hlt := natAbs_toInt?_lt (a := int32 n) rfl nofun
    exact ⟨_, rfl, (Binary.position?_ofInt (Nat.lt_of_succ_lt hlt)).trans ha⟩
  | int64 n => exact ⟨_, rfl, ha⟩
  | float32 x => exact ⟨_, rfl, (Binary.position?_convert x).trans ha⟩
  | float64 x => exact ⟨_, rfl, ha⟩
  | decimal => exact absurd rfl hdecimal
  | _ => cases ha

/-! ## Comparing numbers -/

/-- One value is a decimal and the other an infinite float. -/
def Apart (a b : Value) : Prop :=
  a.kind = .decimal ∧ b.IsInfinite ∨ a.IsInfinite ∧ b.kind = .decimal

/-- One value is a 64 bit integer and the other a float. -/
def Lossy (a b : Value) : Prop := a.kind = .int64 ∧ b.IsFloat ∨ a.IsFloat ∧ b.kind = .int64

theorem compare_eq_compareDecimals (h : a.kind = .decimal ∨ b.kind = .decimal) :
    a.compare b = compareDecimals a b := by
  rcases h with h | h
  · cases a with
    | decimal => cases b <;> rfl
    | _ => cases h
  · cases b with
    | decimal => cases a <;> rfl
    | _ => cases h

theorem compare_eq_compareNumbers (hkind : a.kind ≠ b.kind) (ha : a.kind ≠ .decimal)
    (hb : b.kind ≠ .decimal) : a.compare b = compareNumbers a b := by
  cases a with
  | decimal => exact absurd rfl ha
  | _ =>
    cases b with
    | decimal => exact absurd rfl hb
    | _ => first | rfl | exact absurd rfl hkind

theorem compareNumbers_of_toInt? {m n : ℤ} (ha : a.toInt? = some m) (hb : b.toInt? = some n) :
    compareNumbers a b = some (cmp m n) := by
  rw [compareNumbers, ha, hb]
  exact congrArg some (compareOfLessAndEq_eq_cmp m n)

theorem compareNumbers_of_toInt?_eq_none (hint : a.toInt? = none ∨ b.toInt? = none) :
    compareNumbers a b = a.toDouble?.bind fun z => b.toDouble?.bind fun w => z.compare w := by
  rw [compareNumbers]
  rcases hint with h | h
  · rw [h]
    rfl
  · rw [h]
    cases a.toInt? <;> rfl

/-- Integers compare exactly. -/
theorem compare_of_toInt? {m n : ℤ} (ha : a.toInt? = some m) (hb : b.toInt? = some n) :
    a.compare b = some (cmp m n) := by
  rw [← compareNumbers_of_toInt? ha hb]
  cases a <;> cases ha <;> cases b <;> cases hb <;> rfl

/-- A decimal compares exactly with a finite number. -/
theorem compare_of_decimal (h : a.kind = .decimal ∨ b.kind = .decimal) (ha : a.Denotes x)
    (hb : b.Denotes y) : a.compare b = some (cmp x y) := by
  obtain ⟨d, hd, rfl⟩ := ha.exists_toDecimal?
  obtain ⟨e, he, rfl⟩ := hb.exists_toDecimal?
  rw [compare_eq_compareDecimals h, compareDecimals, hd, he, ← Decimal.compare_eq_cmp]
  rfl

/-- A float compares as doubles do. -/
theorem compare_of_rounded? (ha : a.rounded? = some p) (hb : b.rounded? = some q)
    (hda : a.kind ≠ .decimal) (hdb : b.kind ≠ .decimal) (hint : a.toInt? = none ∨ b.toInt? = none) :
    a.compare b = some (cmp p q) := by
  obtain ⟨z, hz, hp⟩ := exists_toDouble? ha hda
  obtain ⟨w, hw, hq⟩ := exists_toDouble? hb hdb
  by_cases hkind : a.kind = b.kind
  · cases a with
    | float32 x =>
      cases b with
      | float32 y => exact Binary.compare_eq_cmp ha hb
      | _ => cases hkind
    | float64 x =>
      cases b with
      | float64 y => exact Binary.compare_eq_cmp ha hb
      | _ => cases hkind
    | int16 | int32 | int64 =>
      cases b <;> cases hkind
      exact hint.elim nofun nofun
    | decimal => exact absurd rfl hda
    | _ => cases ha
  · rw [compare_eq_compareNumbers hkind hda hdb, compareNumbers_of_toInt?_eq_none hint, hz, hw]
    exact Binary.compare_eq_cmp hp hq

/-- An infinite float does not compare with a decimal. -/
theorem compare_of_apart (h : a.Apart b) : a.compare b = none := by
  rcases h with ⟨hdecimal, hinfinite⟩ | ⟨hinfinite, hdecimal⟩
  · rw [compare_eq_compareDecimals (.inl hdecimal), compareDecimals, hinfinite.toDecimal?_eq_none]
    cases a.toDecimal? <;> rfl
  · rw [compare_eq_compareDecimals (.inr hdecimal), compareDecimals, hinfinite.toDecimal?_eq_none]
    rfl

/-- **Numbers compare as their points.** -/
theorem compare_eq_cmp (ha : a.position? = some p) (hb : b.position? = some q)
    (hlossy : ¬ a.Lossy b) (hapart : ¬ a.Apart b) : a.compare b = some (cmp p q) := by
  by_cases hdecimal : a.kind = .decimal ∨ b.kind = .decimal
  · obtain ⟨hfinite, hfinite'⟩ : ¬ a.IsInfinite ∧ ¬ b.IsInfinite := by
      rcases hdecimal with h | h
      · exact ⟨not_isInfinite_of_decimal h, fun h' => hapart (.inl ⟨h, h'⟩)⟩
      · exact ⟨fun h' => hapart (.inr ⟨h', h⟩), not_isInfinite_of_decimal h⟩
    obtain ⟨x, rfl, hx⟩ := exists_denotes_of_not_isInfinite ha hfinite
    obtain ⟨y, rfl, hy⟩ := exists_denotes_of_not_isInfinite hb hfinite'
    rw [compare_of_decimal hdecimal hx hy, Line.cmp_ofRat]
  · obtain ⟨hda, hdb⟩ := not_or.1 hdecimal
    cases hm : a.toInt? with
    | none =>
      have hfloat := isFloat_of_position? ha hda hm
      have hne : b.kind ≠ .int64 := fun h => hlossy (.inr ⟨hfloat, h⟩)
      exact compare_of_rounded? (hfloat.rounded? ha) ((rounded?_of_ne_int64 hne).trans hb) hda hdb
        (.inl hm)
    | some m =>
      cases hn : b.toInt? with
      | none =>
        have hfloat := isFloat_of_position? hb hdb hn
        have hne : a.kind ≠ .int64 := fun h => hlossy (.inl ⟨h, hfloat⟩)
        exact compare_of_rounded? ((rounded?_of_ne_int64 hne).trans ha) (hfloat.rounded? hb) hda
          hdb (.inr hn)
      | some n =>
        obtain rfl := Option.some.inj ((position?_of_toInt? hm).symm.trans ha)
        obtain rfl := Option.some.inj ((position?_of_toInt? hn).symm.trans hb)
        rw [compare_of_toInt? hm hn, Line.cmp_ofRat, cmp_intCast]

/-! ## Both orders of a pair -/

theorem compareDecimals_swap (a b : Value) :
    compareDecimals b a = (compareDecimals a b).map Ordering.swap := by
  unfold compareDecimals
  cases a.toDecimal? with
  | none => cases b.toDecimal? <;> rfl
  | some d =>
    cases b.toDecimal? with
    | none => rfl
    | some e =>
      simp only [Option.bind_eq_bind, Option.bind_some, Option.map_some, Decimal.compare_eq_cmp,
        cmp_swap]

theorem compareNumbers_swap (a b : Value) :
    compareNumbers b a = (compareNumbers a b).map Ordering.swap := by
  by_cases hint : a.toInt? = none ∨ b.toInt? = none
  · rw [compareNumbers_of_toInt?_eq_none hint, compareNumbers_of_toInt?_eq_none hint.symm]
    cases a.toDouble? with
    | none => cases b.toDouble? <;> rfl
    | some z =>
      cases b.toDouble? with
      | none => rfl
      | some w => exact z.compare_swap w
  · obtain ⟨ha, hb⟩ := not_or.1 hint
    obtain ⟨m, hm⟩ := Option.ne_none_iff_exists'.1 ha
    obtain ⟨n, hn⟩ := Option.ne_none_iff_exists'.1 hb
    rw [compareNumbers_of_toInt? hm hn, compareNumbers_of_toInt? hn hm, Option.map_some, cmp_swap]

theorem compare_string (s t : String) : (string s).compare (string t) = some (cmp s t) :=
  congrArg some (compareOfLessAndEq_eq_cmp s t)

theorem compare_bool (s t : Bool) : (bool s).compare (bool t) = some (cmp s t) := by
  cases s <;> cases t <;> rfl

theorem compare_dateTime (s t : DateTime) :
    (dateTime s).compare (dateTime t) = some (cmp s.parts t.parts) :=
  congrArg some (s.compare_eq_cmp t)

theorem compare_json (i j : Json) :
    (json i).compare (json j) = if i.same j then some .eq else none := rfl

/-- **The other order of a pair is the other way round.** -/
theorem compare_swap (a b : Value) : b.compare a = (a.compare b).map Ordering.swap := by
  by_cases hdecimal : a.kind = .decimal ∨ b.kind = .decimal
  · rw [compare_eq_compareDecimals hdecimal, compare_eq_compareDecimals hdecimal.symm]
    exact compareDecimals_swap a b
  obtain ⟨ha, hb⟩ := not_or.1 hdecimal
  by_cases hkind : a.kind = b.kind
  · cases a with
    | int16 | int32 | int64 =>
      cases b <;> cases hkind
      rw [compare_of_toInt? rfl rfl, compare_of_toInt? rfl rfl, Option.map_some, cmp_swap]
    | float32 x | float64 x =>
      cases b <;> cases hkind
      exact x.compare_swap _
    | decimal => exact absurd rfl ha
    | dateTime s =>
      cases b <;> cases hkind
      rw [compare_dateTime, compare_dateTime, Option.map_some, cmp_swap]
    | string s =>
      cases b <;> cases hkind
      rw [compare_string, compare_string, Option.map_some, cmp_swap]
    | bool s =>
      cases b <;> cases hkind
      rw [compare_bool, compare_bool, Option.map_some, cmp_swap]
    | json i =>
      cases b with
      | json j =>
        rw [compare_json, compare_json, i.same_comm j]
        split_ifs <;> rfl
      | null => rfl
      | _ => cases hkind
    | null => cases b <;> rfl
  · rw [compare_eq_compareNumbers hkind ha hb, compare_eq_compareNumbers (Ne.symm hkind) hb ha]
    exact compareNumbers_swap a b

/-! ## Equality with itself -/

/-- The value is not NaN, and holds none if it is a document. -/
def NanFree : Value → Prop
  | json j => j.NanFree
  | v => v.NotNan

theorem not_lossy_self (a : Value) : ¬ a.Lossy a := by
  rintro (⟨h, h'⟩ | ⟨h', h⟩) <;> exact h'.ne_int64 h

theorem not_apart_self (a : Value) : ¬ a.Apart a := by
  rintro (⟨h, h'⟩ | ⟨h', h⟩) <;> exact not_isInfinite_of_decimal h h'

theorem compare_nan (ha : a.kind.isNumeric = true) (hnan : ¬ a.NotNan) (b : Value) :
    a.compare b = none := by
  cases a with
  | float32 x =>
    obtain rfl := not_not.1 hnan
    cases b <;> rfl
  | float64 x =>
    obtain rfl := not_not.1 hnan
    cases b <;> rfl
  | int16 | int32 | int64 | decimal => exact absurd trivial hnan
  | _ => cases ha

/-- Two values that can be compared: of one kind, and equal if they are documents, or numbers. -/
inductive Alike : Value → Value → Prop
  | strings (s t : String) : Alike (string s) (string t)
  | bools (s t : Bool) : Alike (bool s) (bool t)
  | dateTimes (s t : DateTime) : Alike (dateTime s) (dateTime t)
  | documents {i j : Json} (h : i.same j = true) : Alike (json i) (json j)
  | numbers {a b : Value} {p q : Line} (ha : a.position? = some p) (hb : b.position? = some q) :
    Alike a b

theorem isNumeric_of_compare {o : Ordering} (ha : a.kind.isNumeric = true)
    (h : a.compare b = some o) : b.kind.isNumeric = true := by
  cases b with
  | int16 | int32 | int64 | float32 | float64 | decimal => rfl
  | _ =>
    cases a with
    | int16 | int32 | int64 | float32 | float64 | decimal => cases h
    | _ => cases ha

/-- **What compares is alike.** -/
theorem alike_of_compare {o : Ordering} (h : a.compare b = some o) : a.Alike b := by
  by_cases hnum : a.kind.isNumeric = true
  · have hnum' := isNumeric_of_compare hnum h
    have hnan : a.NotNan := by
      by_contra hnan
      rw [compare_nan hnum hnan] at h
      cases h
    have hnan' : b.NotNan := by
      by_contra hnan'
      rw [compare_swap b a, compare_nan hnum' hnan'] at h
      cases h
    obtain ⟨p, hp⟩ := exists_position?_iff.2 ⟨hnum, hnan⟩
    obtain ⟨q, hq⟩ := exists_position?_iff.2 ⟨hnum', hnan'⟩
    exact .numbers hp hq
  · cases a with
    | int16 | int32 | int64 | float32 | float64 | decimal => exact absurd rfl hnum
    | string s =>
      cases b with
      | string t => exact .strings s t
      | _ => cases h
    | bool s =>
      cases b with
      | bool t => exact .bools s t
      | _ => cases h
    | dateTime s =>
      cases b with
      | dateTime t => exact .dateTimes s t
      | _ => cases h
    | json i =>
      cases b with
      | json j =>
        rw [compare_json] at h
        split_ifs at h with hsame
        exact .documents hsame
      | _ => cases h
    | null => cases b <;> cases h

theorem compare_self_of_position? (ha : a.position? = some p) : a.compare a = some .eq := by
  rw [compare_eq_cmp ha ha a.not_lossy_self a.not_apart_self, cmp_self_eq_eq]

theorem equal_self_iff_of_isNumeric (h : a.kind.isNumeric = true) :
    a.equal a = true ↔ a.NotNan := by
  rw [equal, beq_iff_eq]
  by_cases hnan : a.NotNan
  · obtain ⟨p, hp⟩ := exists_position?_iff.2 ⟨h, hnan⟩
    exact iff_of_true (compare_self_of_position? hp) hnan
  · rw [compare_nan h hnan]
    exact iff_of_false nofun hnan

/-- **A value is equal to itself** if it is there and free of NaN. -/
theorem equal_self_iff (a : Value) : a.equal a = true ↔ a ≠ null ∧ a.NanFree := by
  cases a with
  | int16 | int32 | int64 | float32 | float64 | decimal =>
    exact (equal_self_iff_of_isNumeric rfl).trans (and_iff_right nofun).symm
  | dateTime t =>
    rw [equal, compare_dateTime, cmp_self_eq_eq]
    exact iff_of_true rfl ⟨nofun, trivial⟩
  | string s =>
    rw [equal, compare_string, cmp_self_eq_eq]
    exact iff_of_true rfl ⟨nofun, trivial⟩
  | bool b =>
    rw [equal, compare_bool, cmp_self_eq_eq]
    exact iff_of_true rfl ⟨nofun, trivial⟩
  | json j =>
    rw [equal, compare_json, NanFree, ← j.same_self_iff]
    cases j.same j with
    | false => exact iff_of_false nofun nofun
    | true => exact iff_of_true rfl ⟨nofun, rfl⟩
  | null => exact iff_of_false nofun fun h => h.1 rfl

/-! ## Main statement -/

/-- The value is no infinite float and not NaN. -/
def IsFinite : Value → Prop
  | float32 x => x.isFinite = true
  | float64 x => x.isFinite = true
  | _ => True

/-- A finite number is a rational number. -/
theorem exists_denotes (hnumeric : a.kind.isNumeric = true) (hfinite : a.IsFinite) :
    ∃ x, a.Denotes x := by
  cases a with
  | int16 | int32 | int64 | decimal => exact ⟨_, rfl⟩
  | float32 x | float64 x =>
    cases x with
    | finite => exact ⟨_, rfl⟩
    | _ => cases hfinite
  | _ => cases hnumeric

/-- **Comparisons are coherent and exact.** The other order of a pair is the reverse one, and there
is none if the first one is not there. A value is equal to itself if it is not absent and free of
NaN. Two finite numbers of whatever kinds are in the order of the rational numbers that they are,
unless a 64 bit integer meets a float. -/
theorem comparison_coherent (a b : Value) :
    b.compare a = (a.compare b).map Ordering.swap ∧
      (a.equal a = true ↔ a ≠ null ∧ a.NanFree) ∧
      (a.kind.isNumeric = true → a.IsFinite → b.kind.isNumeric = true → b.IsFinite →
        ¬ a.Lossy b → ∃ x y, a.Denotes x ∧ b.Denotes y ∧ a.compare b = some (cmp x y)) := by
  refine ⟨a.compare_swap b, a.equal_self_iff, fun hnum hfin hnum' hfin' hlossy => ?_⟩
  obtain ⟨x, hx⟩ := exists_denotes hnum hfin
  obtain ⟨y, hy⟩ := exists_denotes hnum' hfin'
  have hapart : ¬ a.Apart b := by
    rintro (⟨-, h⟩ | ⟨h, -⟩)
    · exact hy.not_isInfinite h
    · exact hx.not_isInfinite h
  exact ⟨x, y, hx, hy, (compare_eq_cmp hx hy hlossy hapart).trans (by rw [Line.cmp_ofRat])⟩

/-- The double nearest to a tenth is more than a tenth. -/
theorem comparison_coherent_tenth :
    let a := decimal ⟨1, 1⟩
    let b := float64 (.finite false 7205759403792794 (-56) (by decide))
    a.kind.isNumeric = true ∧ a.IsFinite ∧ b.kind.isNumeric = true ∧ b.IsFinite ∧ ¬ a.Lossy b ∧
      a.compare b = some .lt ∧ b.compare a = some .gt := by
  intro a b
  have hlossy : ¬ a.Lossy b := by
    rintro (⟨h, -⟩ | ⟨-, h⟩) <;> cases h
  obtain ⟨hswap, -, hexact⟩ := comparison_coherent a b
  obtain ⟨x, y, hx, hy, hcompare⟩ := hexact rfl trivial rfl rfl hlossy
  obtain rfl := hx.unique (y := Decimal.value ⟨1, 1⟩) rfl
  obtain rfl := hy.unique (y := Binary.signedValue false 7205759403792794 (-56)) rfl
  have hlt : Decimal.value ⟨1, 1⟩ < Binary.signedValue false 7205759403792794 (-56) := by
    norm_num [Decimal.value, Binary.signedValue, Text.signed]
  rw [hlt.cmp_eq_lt] at hcompare
  exact ⟨rfl, trivial, rfl, rfl, hlossy, hcompare, by rw [hswap, hcompare]; rfl⟩

end Value

end RecordFilter

import RecordFilter.Proofs.Compile.Numbers

/-!
# Overflow of floats

Neither reading of a number refuses one that is too large for a float. An argument is rounded to the
kind of its property, and a double of a document is rounded to a single; both roundings end in an
infinity from half a unit above the largest float on (`Kind.Overflows`). Only a document as a double
is always finite, since its text is refused already if it is beyond the doubles.

So a float is finite unless its number overflows its kind, in the constants of a compiled filter and
in the fields of a record (`finite_unless_overflow`).
-/

namespace RecordFilter

open RecordFilter.Filter RecordFilter.Number RecordFilter.Json Text

/-! ## Floats as values -/

/-- A kind of floats. -/
def Kind.isFloat : Kind → Bool
  | float32 | float64 => true
  | _ => false

/-- The magnitude is half a unit or more above the largest float of the kind. -/
def Kind.Overflows : Kind → ℚ → Prop
  | float32, q => 2 ^ (128 : ℤ) - 2 ^ (103 : ℤ) ≤ q
  | float64, q => 2 ^ (1024 : ℤ) - 2 ^ (970 : ℤ) ≤ q
  | _, _ => False

/-- A float of the kind that was made of a number of this magnitude: an infinity if that overflows,
and finite otherwise. -/
structure Value.IsFloatOf (v : Value) (k : Kind) (q : ℚ) : Prop where
  kind : v.kind = k
  infinite : v.IsInfinite ↔ k.Overflows q
  finite : v.IsFinite ↔ ¬ k.Overflows q

variable {k : Kind} {v : Value} {negative : Bool} {q : ℚ}

/-- What is rounded is an infinity from the end of the format on. -/
theorem Number.Binary.IsRounded.position?_iff {f : Format} {x : Binary f}
    (h : x.IsRounded negative q) :
    x.position? = some ⊥ ∨ x.position? = some ⊤ ↔ f.overflow ≤ q := by
  rcases h with ⟨hlt, m, e, hholds, rfl, -⟩ | ⟨hle, rfl⟩
  · refine iff_of_false ?_ (not_le.2 hlt)
    rintro (h | h)
    · exact (Line.bot_lt_ofRat _).ne' (Option.some.inj h)
    · exact (Line.ofRat_lt_top _).ne (Option.some.inj h)
  · exact iff_of_true (by cases negative <;> simp [Binary.position?]) hle

theorem Value.isFloatOf_float32 {x : Single} (h : x.IsRounded negative q) :
    (Value.float32 x).IsFloatOf .float32 q where
  kind := rfl
  infinite := by rw [Kind.Overflows, ← Format.overflow_single, ← h.position?_iff]; rfl
  finite := by rw [Kind.Overflows, ← Format.overflow_single, not_le, ← h.isFinite_iff]; rfl

theorem Value.isFloatOf_float64 {x : Double} (h : x.IsRounded negative q) :
    (Value.float64 x).IsFloatOf .float64 q where
  kind := rfl
  infinite := by rw [Kind.Overflows, ← Format.overflow_double, ← h.position?_iff]; rfl
  finite := by rw [Kind.Overflows, ← Format.overflow_double, not_le, ← h.isFinite_iff]; rfl

/-! ## Arguments -/

/-- A number as an argument is rounded to the kind. -/
theorem exists_ofText_float {s : List Char} (hk : k.isFloat = true) (hs : IsNumber s) :
    ∃ v, k.ofText s = some v ∧ v.IsFloatOf k (Numeral.ofText s).magnitude := by
  obtain ⟨n, hn, rfl⟩ := hs.exists_plain
  rw [hn.ofText_write, hn.magnitude_eq]
  cases k with
  | float32 =>
    exact ⟨_, by rw [Kind.ofText, hn.binaryRead_write]; rfl,
      Value.isFloatOf_float32 (Binary.isRounded_ofScientific Format.single_proper _ _ _)⟩
  | float64 =>
    exact ⟨_, by rw [Kind.ofText, hn.binaryRead_write]; rfl,
      Value.isFloatOf_float64 (Binary.isRounded_ofScientific Format.double_proper _ _ _)⟩
  | _ => cases hk

/-- Only a number has the form of a float. -/
theorem exists_number_of_fits {l : Literal} (hk : k.isFloat = true) (h : k.fits l = true) :
    ∃ s, l = .number s := by
  cases l with
  | number s => exact ⟨s, rfl⟩
  | _ =>
    cases k with
    | float32 | float64 => cases h
    | _ => cases hk

/-! ## Documents -/

/-- A number of a document becomes a double first, and that is rounded to the kind. -/
theorem exists_ofJson_float {j : Json.Number} (hk : k.isFloat = true) (hj : j.IsFinite) :
    ∃ v, Value.ofJson k (.number j) = .ok v ∧ v.IsFloatOf k j.toDouble.magnitude := by
  have hfinite := hj.toDouble
  generalize hx : j.toDouble = x at hfinite
  cases x with
  | finite negative m e h =>
    cases k with
    | float32 =>
      refine ⟨_, rfl, ?_⟩
      rw [hx]
      exact Value.isFloatOf_float32 (Binary.isRounded_convert (by decide) negative h)
    | float64 =>
      refine ⟨_, rfl, ?_⟩
      rw [hx]
      exact Value.isFloatOf_float64 (Binary.isRounded_self (by decide) negative h)
    | _ => cases hk
  | infinite => cases hfinite
  | nan => cases hfinite

/-- A float is read from nothing but a number. -/
theorem exists_number_of_ofJson {d : Json} (hk : k.isFloat = true) (hd : d ≠ .null)
    (h : Value.ofJson k d = .ok v) : ∃ j, d = .number j := by
  cases d with
  | number j => exact ⟨j, rfl⟩
  | null => exact absurd rfl hd
  | _ =>
    cases k with
    | float32 | float64 => cases h
    | _ => cases hk

/-! ## Constants of filters -/

/-- The constants of a comparison are its values, or one truth value. -/
theorem Filter.Comparison.exists_values_of_compileBy {reduce : List Char → Like} {c : Comparison}
    {p : Property} {q : Predicate} (h : c.compileBy reduce p = .ok q) :
    ∀ x ∈ q.comparisons, x.2.kind = .bool ∨ ∃ vs, c.values p = .ok vs ∧ x.2 ∈ vs := by
  rw [compileBy_eq_ok] at h
  cases hcomparator : c.comparator <;> simp only [hcomparator] at h
  case eq | neq =>
    obtain ⟨v, hv, rfl⟩ := h
    exact List.forall_mem_singleton.2 (.inr ⟨_, hv, List.mem_cons_self⟩)
  case lt | le | gt | ge =>
    obtain ⟨-, v, hv, rfl⟩ := h
    exact List.forall_mem_singleton.2 (.inr ⟨_, hv, List.mem_cons_self⟩)
  case isNull | notNull =>
    obtain ⟨-, rfl⟩ := h
    exact List.forall_mem_nil _
  case isTrue | isFalse =>
    obtain ⟨-, rfl⟩ := h
    exact List.forall_mem_singleton.2 (.inl rfl)
  case like =>
    obtain ⟨-, s, -, rfl⟩ := h
    exact List.forall_mem_nil _
  case within | without =>
    obtain ⟨vs, hvs, -, rfl⟩ := h
    exact List.forall_mem_map.2 fun v hv => .inr ⟨vs, hvs, hv⟩

/-- The float is what one of the numbers in the filter is rounded to. -/
def Filter.Rounds (f : Filter) (v : Value) : Prop :=
  ∃ c ∈ f.comparisons, ∃ s, Literal.number s ∈ c.arguments ∧ IsNumber s.toList ∧
    v.IsFloatOf v.kind (Numeral.ofText s.toList).magnitude

/-- **A float among the constants of a compiled filter is a number of the filter, rounded.** -/
theorem Filter.rounds_of_compile {f : Filter} {e : Entity} {n : Naming} {d : Like.Draws}
    {q : Predicate} (hf : ∀ c ∈ f.comparisons, c.WellFormed) (h : (f.compile e n d).1 = .ok q) :
    ∀ x ∈ q.comparisons, x.2.kind.isFloat = true → f.Rounds x.2 := by
  obtain ⟨t, ht, rfl⟩ := exists_rel_of_compile h
  refine Predicate.ofNode_induction
    (P := fun q => ∀ x ∈ q.comparisons, x.2.kind.isFloat = true → f.Rounds x.2)
    (List.forall_mem_nil _) (fun _ _ hl hr => List.forall_mem_append.2 ⟨hl, hr⟩)
    (fun _ _ hl hr => List.forall_mem_append.2 ⟨hl, hr⟩) ?_
  intro q hq x hx hfloat
  obtain ⟨c, hc, d', -, hcompile⟩ := ht.exists_leaf q hq
  obtain ⟨p, -, hby⟩ := Comparison.compileIn_eq_ok.1 hcompile
  rcases Comparison.exists_values_of_compileBy hby x hx with hbool | ⟨vs, hvs, hmem⟩
  · rw [hbool] at hfloat
    cases hfloat
  · obtain ⟨l, hl, hfits, hread⟩ := Comparison.exists_of_mem_values hvs hmem
    obtain ⟨hkind, -⟩ := Kind.kind_of_ofText hread
    rw [hkind] at hfloat
    obtain ⟨s, rfl⟩ := exists_number_of_fits hfloat hfits
    have hs : IsNumber s.toList := (hf c hc).arguments _ hl
    obtain ⟨v, hv, hrounded⟩ := exists_ofText_float hfloat hs
    obtain rfl : v = x.2 := Option.some.inj (hv.symm.trans hread)
    exact ⟨c, hc, s, hl, hs, hkind ▸ hrounded⟩

/-! ## Fields of records -/

/-- The float is what the number of a member is rounded to. -/
def Json.RoundsMember (d : Json) (name : String) (v : Value) : Prop :=
  ∃ members j, d = .object members ∧ Json.member? name members = some (.number j) ∧ j.IsFinite ∧
    v.IsFloatOf v.kind j.toDouble.magnitude

/-- A float that an object holds for a property is a number of the object, rounded. -/
theorem Property.Holds.roundsMember {p : Property} {members : List (String × Json)}
    (hd : (Json.object members).IsRead) (h : p.Holds members v) (hfloat : v.kind.isFloat = true) :
    (Json.object members).RoundsMember p.name v := by
  cases h with
  | missing | null => cases hfloat
  | @value d _ hmember hj hv hkind _ =>
    rw [hkind] at hfloat
    obtain ⟨j, rfl⟩ := exists_number_of_ofJson hfloat hj hv
    obtain ⟨m, hm⟩ := (hd.member hmember).exists_numeral
    have hfinite := Number.isFinite_of_ofNumeral hm
    obtain ⟨w, hw, hrounded⟩ := exists_ofJson_float hfloat hfinite
    obtain rfl : w = v := Except.ok.inj (hw.symm.trans hv)
    exact ⟨members, j, rfl, hmember, hfinite, hkind ▸ hrounded⟩

/-- **A float of a record is a number of its document, rounded.** -/
theorem Record.roundsMember_of_ofJson {e : Entity} {d : Json} {r : Record} (hd : d.IsRead)
    (h : Record.ofJson e d = .ok r) :
    ∀ field ∈ r.fields, field.value.kind.isFloat = true →
      d.RoundsMember field.name field.value := by
  cases d with
  | object members =>
    have hfields := (Record.ofJson_object_eq_ok_iff.1 h).2
    intro field hmem hfloat
    obtain ⟨p, -, hname, hholds⟩ := exists_mem_of_forall₂ hfields.flip field hmem
    exact hname ▸ hholds.roundsMember hd hfloat
  | _ => cases h

/-! ## Main statement -/

/-- **A float is finite unless its number overflows its kind**, and then it is an infinity and no
error. Each float kind reads every number of a filter, and every finite number of a document; the
latter is never too large for a double. So a float among the constants of a filter text that
compiles is an infinity exactly if the number in the filter overflows, and a float of a record if
the number in its document does. -/
theorem finite_unless_overflow {k : Kind} (hk : k.isFloat = true) :
    (∀ s : List Char, IsNumber s →
      ∃ v, coerce k [.number (String.ofList s)] = .ok (some [v]) ∧
        v.IsFloatOf k (Numeral.ofText s).magnitude) ∧
    (∀ j : Json.Number, j.IsFinite →
      (∃ v, Value.ofJson k (.number j) = .ok v ∧ v.IsFloatOf k j.toDouble.magnitude) ∧
        ¬ Kind.float64.Overflows j.toDouble.magnitude) ∧
    (∀ (registry : Registry) (entity : String) (n : Naming) (text : String) (draws : Like.Draws)
      (q : Predicate), (registry.compileText entity n text draws).1 = .ok q →
      ∃ f, Filter.read text = .ok f ∧ ∀ x ∈ q.comparisons, x.2.kind = k → f.Rounds x.2) ∧
    ∀ (e : Entity) (d : Json) (r : Record), d.IsRead → Record.ofJson e d = .ok r →
      ∀ field ∈ r.fields, field.value.kind = k → d.RoundsMember field.name field.value := by
  refine ⟨fun s hs => ?_, fun j hj => ⟨exists_ofJson_float hk hj, ?_⟩,
    fun registry entity n text draws q h => ?_, fun e d r hd h field hmem hfield =>
      Record.roundsMember_of_ofJson hd h field hmem (hfield ▸ hk)⟩
  · obtain ⟨v, hv, hrounded⟩ := exists_ofText_float hk hs
    exact ⟨v, (coerce_number (by cases k <;> first | rfl | cases hk) s).2 hv, hrounded⟩
  · obtain ⟨v, hv, hrounded⟩ := exists_ofJson_float (k := .float64) rfl hj
    obtain rfl := Except.ok.inj hv
    exact hrounded.finite.1 hj.toDouble
  · obtain ⟨f, e, hread, -, hcompile⟩ := Registry.compileText_eq_ok.1 h
    have hrounds := Filter.rounds_of_compile (wellFormed_of_read hread) hcompile
    exact ⟨f, hread, fun x hx hkind => hrounds x hx (hkind ▸ hk)⟩

/-- `1e39` is a finite double that no single is close to. -/
theorem Json.Number.ofNumeral_e39 :
    ofNumeral ⟨false, ['1'], [], some (false, ['3', '9'])⟩ =
      some (.float (.finite false 6617444900424221 77 (by decide))) := by
  show ofParts false 1 39 = _
  rw [ofParts, scale]
  decide +kernel

/-- Half a unit above the largest single, in a filter, and a larger number in a document. -/
theorem finite_unless_overflow_single :
    let user : Entity := ⟨"User", [{ name := "Score", kind := .float32 }], by decide⟩
    let registry : Registry := ⟨[user], by decide⟩
    let s := "340282356779733661637539395458142568448".toList
    let text := "Score" ++ "==" ++ String.ofList s
    let j : Json.Number := .float (.finite false 6617444900424221 77 (by decide))
    let d : Json := .object [("Score", .number j)]
    IsNumber s ∧
      (∃ v, coerce .float32 [.number (String.ofList s)] = .ok (some [v]) ∧ v.IsInfinite ∧
        (registry.compileText "User" .asIs text (.counted 0)).1 = .ok (.compare "Score" .eq v) ∧
        ∃ f, Filter.read text = .ok f ∧ f.Rounds v) ∧
      Json.read "\x7b\"Score\": 1e39\x7d".toList = some d ∧ j.IsFinite ∧
      (∃ v, Value.ofJson .float32 (.number j) = .ok v ∧ v.IsInfinite) ∧
      ¬ Kind.float64.Overflows j.toDouble.magnitude ∧
      ∃ r, Record.ofJson user d = .ok r ∧
        ∀ field ∈ r.fields, d.RoundsMember "Score" field.value := by
  intro user registry s text j d
  obtain ⟨harguments, hdocuments, hfilters, hrecords⟩ :=
    finite_unless_overflow (k := .float32) rfl
  have hs : IsNumber s := isNumber_iff.1 (by decide +kernel)
  obtain ⟨v, hv, hsingle⟩ := harguments s hs
  have hmagnitude : (Numeral.ofText s).magnitude = 340282356779733661637539395458142568448 := by
    have hsignificand :
        (Numeral.ofText s).significand = 340282356779733661637539395458142568448 := by
      decide +kernel
    have hscale : (Numeral.ofText s).scale = 0 := by decide +kernel
    rw [Numeral.magnitude, hsignificand, hscale]
    norm_num
  have hoverflow : Kind.float32.Overflows (Numeral.ofText s).magnitude := by
    rw [hmagnitude, Kind.Overflows]
    norm_num
  have hselector : IsSelector "Score".toList := ⟨_, _, rfl, rfl, run_of_all rfl⟩
  have hcompiles :
      (registry.compileText "User" .asIs text (.counted 0)).1 = .ok (.compare "Score" .eq v) :=
    compileText_number (e := user) (p := ⟨"Score", .float32, false⟩) hs rfl rfl hselector hv _
  obtain ⟨f, hf, hrounds⟩ := hfilters registry "User" .asIs text _ _ hcompiles
  have hd : Json.read "\x7b\"Score\": 1e39\x7d".toList = some d := by
    have hraw : Json.Raw.read "\x7b\"Score\": 1e39\x7d".toList =
        some (.object [("Score".toList.map .char,
          .number ⟨false, ['1'], [], some (false, ['3', '9'])⟩)]) := by
      cbv
    have hname : decodeString ("Score".toList.map .char) = some "Score" := by decide
    rw [Json.read, hraw]
    simp only [Option.bind_some, Json.ofRaw, Json.ofRawMembers, Json.Number.ofNumeral_e39, hname]
    rfl
  have hfinite : j.IsFinite := rfl
  obtain ⟨⟨w, hw, hwsingle⟩, hdouble⟩ := hdocuments j hfinite
  have hjoverflow : Kind.float32.Overflows j.toDouble.magnitude := by
    show (2 : ℚ) ^ (128 : ℤ) - 2 ^ (103 : ℤ) ≤ (6617444900424221 : ℕ) * 2 ^ (77 : ℤ)
    norm_num
  have hr : Record.ofJson user d = .ok ⟨"User", [⟨"Score", w⟩]⟩ := by
    obtain rfl := Except.ok.inj hw
    rfl
  refine ⟨hs, ⟨v, hv, hsingle.infinite.2 hoverflow, hcompiles, f, hf, ?_⟩, hd, hfinite,
    ⟨w, hw, hwsingle.infinite.2 hjoverflow⟩, hdouble, _, hr, ?_⟩
  · exact hrounds _ List.mem_cons_self hsingle.kind
  · exact List.forall_mem_singleton.2 (hrecords user d _ (isRead_of_read hd) hr _
      List.mem_cons_self hwsingle.kind)

/-- A number too large for a single and one too large for a double are infinities as arguments, and
a finite number of a document is an infinity as a single: none of them is an error. -/
theorem overflow_is_no_error :
    (let s := "340282356779733661637539395458142568448".toList;
      IsNumber s ∧
        coerce .float32 [.number (String.ofList s)] = .ok (some [.float32 (.infinite false)])) ∧
    (let s := '1' :: List.replicate 309 '0';
      IsNumber s ∧
        coerce .float64 [.number (String.ofList s)] = .ok (some [.float64 (.infinite false)])) ∧
    let j : Json.Number := .float (.finite false 6617444900424221 77 (by decide))
    Json.read "1e39".toList = some (.number j) ∧ j.IsFinite ∧
      Value.ofJson .float32 (.number j) = .ok (.float32 (.infinite false)) := by
  refine ⟨?_, ?_, ?_⟩
  · intro s
    have hread : (Binary.read s : Option Single) = some (.infinite false) := by decide +kernel
    exact ⟨isNumber_iff.1 (by decide +kernel),
      (coerce_number rfl s).2 (congrArg (Option.map Value.float32) hread)⟩
  · intro s
    have hread : (Binary.read s : Option Double) = some (.infinite false) := by decide +kernel
    refine ⟨isNumber_iff.1 (by decide +kernel), (coerce_number rfl s).2 ?_⟩
    rw [Kind.ofText, hread, Option.map_some]
  · intro j
    have hraw : Json.Raw.read "1e39".toList =
        some (.number ⟨false, ['1'], [], some (false, ['3', '9'])⟩) := by cbv
    have hconvert : (j.toDouble.convert : Single) = .infinite false := by decide +kernel
    refine ⟨?_, rfl, congrArg (fun x => Except.ok (Value.float32 x)) hconvert⟩
    rw [Json.read, hraw, Option.bind_some, Json.ofRaw, Json.Number.ofNumeral_e39, Option.map_some]

end RecordFilter

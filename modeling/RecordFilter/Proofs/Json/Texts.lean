import RecordFilter.Proofs.Json.Roundtrip
import RecordFilter.Proofs.Json.Written

/-!
# What written documents denote

A text denotes a document if it has its structure, its strings and its members, its integers to the
last digit, and for each of its floats a numeral to which the float is nearest (`Raw.Denotes`). No
text denotes two documents (`Raw.Denotes.unique`).

A document of a text that is written denotes this document again, in every layout, and unless it has
floats it is read back as well (`isTextOf_write`). With floats that takes a reader that rounds to
the nearest float, which `Json.read` does not do for long numerals.
-/

namespace RecordFilter.Json

open RecordFilter.Filter RecordFilter.Number Text

/-! ## Numbers -/

/-- The numeral has a point or an exponent. -/
def Numeral.IsPointed (n : Numeral) : Prop := n.places ≠ [] ∨ n.exponent ≠ none

/-- An integer is denoted by its digits, and a float by the numerals with a point or an exponent to
which it is nearest. -/
def Numeral.Denotes (n : Numeral) : Number → Prop
  | .integer i => ¬ n.IsPointed ∧ signed n.negative n.significand = i
  | .float x => n.IsPointed ∧ x.IsNearest n.negative n.magnitude

theorem Numeral.Denotes.unique {n : Numeral} {a b : Number} (ha : n.Denotes a) (hb : n.Denotes b) :
    a = b := by
  cases a with
  | integer i =>
    cases b with
    | integer k => exact congrArg Number.integer (ha.2.symm.trans hb.2)
    | float y => exact absurd hb.1 ha.1
  | float x =>
    cases b with
    | integer k => exact absurd ha.1 hb.1
    | float y =>
      obtain ⟨m, e, h, rfl, hx⟩ := ha.2
      obtain ⟨n, k, h', rfl, hy⟩ := hb.2
      obtain ⟨rfl, rfl⟩ := hx.unique double_precision hy
      rfl

theorem denotes_ofInt (i : ℤ) : (Numeral.ofInt i).Denotes (.integer i) := by
  refine ⟨by simp [Numeral.IsPointed, Numeral.ofInt], ?_⟩
  rw [Numeral.significand, Numeral.ofInt, List.append_nil, ofDigits_digits, signed_natAbs]

section

variable {s : Significant} (p : Positional) (negative : Bool)

/-- Digits around their point do not begin with a zero that is not the whole part. -/
theorem strict_ofSignificant (hs : 0 < s.digits) :
    (Numeral.ofSignificant p negative s).Strict := by
  have hhead := head?_digits_ne_zero hs
  obtain ⟨c, w, hdigits⟩ := List.exists_cons_of_ne_nil (someDigits_digits s.digits).1
  rw [hdigits] at hhead
  unfold Numeral.ofSignificant
  dsimp only
  split
  · exact .inl rfl
  split
  · obtain ⟨k, hk⟩ : ∃ k, s.point.toNat = k + 1 := ⟨s.point.toNat - 1, by omega⟩
    simp only [hdigits, hk, List.take_succ_cons]
    exact .inr hhead
  · simp only [hdigits]
    exact .inr hhead

theorem isPointed_ofSignificant (s : Significant) :
    (Numeral.ofSignificant p negative s).IsPointed := by
  unfold Numeral.ofSignificant
  dsimp only
  split_ifs with hsmall hlarge hplaces
  · exact .inl (List.append_ne_nil_of_right_ne_nil _ (someDigits_digits s.digits).1)
  · exact .inl (List.cons_ne_nil _ _)
  · exact .inl fun h => hplaces (List.isEmpty_iff.2 h)
  · exact .inr (Option.some_ne_none _)

end

/-- A finite double is written as a numeral to which it is nearest. -/
theorem exists_numeral_of_finite (negative : Bool) {m : ℕ} {e : ℤ} (h : Format.double.Holds m e) :
    ∃ n, Numeral.ofFloat? positionalDouble (.finite negative m e h) = some n ∧
      n.WellFormed ∧ n.Strict ∧ n.Denotes (.float (.finite negative m e h)) := by
  have hcanonical := (Format.holds_iff.1 h).1
  rcases Nat.eq_zero_or_pos m with rfl | hm
  · refine ⟨⟨negative, ['0'], ['0'], none⟩, rfl, ?_, .inl rfl,
      .inl (List.cons_ne_nil _ _), 0, e, h, rfl, ?_⟩
    · exact (Numeral.plain_of_digits negative (Numeral.someDigits_of_all rfl)
        (run_of_all rfl)).toWellFormed
    · have hnearest := hcanonical.nearest_self double_precision
      have hzero : (⟨negative, ['0'], ['0'], none⟩ : Numeral).magnitude = 0 := zero_mul _
      rwa [Nat.cast_zero, zero_mul, ← hzero] at hnearest
  · have hdigits : twoPow Format.double.precision ≤ 10 ^ (Format.double.decimalDigits - 1) := by
      decide
    have hwrites := Numeral.ofSignificant_writes positionalDouble negative
      (Binary.shortest .toEven .double m e)
    have hpos := Binary.shortest_digits_pos .toEven double_precision hdigits hm hcanonical
    refine ⟨_, if_neg hm.ne', hwrites.wellFormed, strict_ofSignificant _ _ hpos,
      isPointed_ofSignificant _ _ _, m, e, h, ?_, ?_⟩
    · rw [hwrites.negative_eq]
    · rw [hwrites.magnitude_eq]
      exact Binary.nearest_shortest .toEven double_precision hdigits hm hcanonical

/-- A finite number is written as a numeral that denotes it. -/
theorem Number.IsFinite.exists_numeral {j : Number} (h : j.IsFinite) :
    ∃ n, j.toRaw = .number n ∧ n.WellFormed ∧ n.Strict ∧ n.Denotes j := by
  cases j with
  | integer i => exact ⟨_, rfl, (plain_ofInt i).toWellFormed, strict_ofInt i, denotes_ofInt i⟩
  | float x =>
    cases x with
    | finite negative m e hm =>
      obtain ⟨n, hn, hwritten⟩ := exists_numeral_of_finite negative hm
      refine ⟨n, ?_, hwritten⟩
      rw [toRaw, Raw.ofFloat, hn]
    | infinite | nan => cases h

/-! ## Documents -/

namespace Raw

mutual

/-- The text denotes the document. -/
inductive Denotes : Raw → Json → Prop
  | null : Denotes .null .null
  | bool (b : Bool) : Denotes (.bool b) (.bool b)
  | number {n : Numeral} {j : Json.Number} (h : n.Denotes j) : Denotes (.number n) (.number j)
  | string {s : List Piece} {t : String} (h : decodeString s = some t) :
      Denotes (.string s) (.string t)
  | array {rs : List Raw} {items : List Json} (h : DenotesItems rs items) :
      Denotes (.array rs) (.array items)
  | object {rs : List (List Piece × Raw)} {members : List (String × Json)}
      (h : DenotesMembers rs members) : Denotes (.object rs) (.object members)

/-- The texts denote the elements, one by one. -/
inductive DenotesItems : List Raw → List Json → Prop
  | nil : DenotesItems [] []
  | cons {r : Raw} {rs : List Raw} {j : Json} {items : List Json} (h : Denotes r j)
      (hrest : DenotesItems rs items) : DenotesItems (r :: rs) (j :: items)

/-- The texts denote the members, one by one. -/
inductive DenotesMembers : List (List Piece × Raw) → List (String × Json) → Prop
  | nil : DenotesMembers [] []
  | cons {s : List Piece} {r : Raw} {rs : List (List Piece × Raw)} {name : String} {j : Json}
      {members : List (String × Json)} (hname : decodeString s = some name) (h : Denotes r j)
      (hrest : DenotesMembers rs members) : DenotesMembers ((s, r) :: rs) ((name, j) :: members)

end

mutual

/-- **A text denotes one document.** -/
theorem Denotes.unique : ∀ {r : Raw} {a b : Json}, r.Denotes a → r.Denotes b → a = b
  | _, _, _, .null, .null | _, _, _, .bool _, .bool _ => rfl
  | _, _, _, .number h, .number h' => congrArg Json.number (h.unique h')
  | _, _, _, .string h, .string h' => congrArg Json.string (Option.some.inj (h.symm.trans h'))
  | _, _, _, .array h, .array h' => congrArg Json.array (h.unique h')
  | _, _, _, .object h, .object h' => congrArg Json.object (h.unique h')

theorem DenotesItems.unique : ∀ {rs : List Raw} {a b : List Json}, DenotesItems rs a →
    DenotesItems rs b → a = b
  | _, _, _, .nil, .nil => rfl
  | _, _, _, .cons h hrest, .cons h' hrest' =>
    congrArg₂ List.cons (h.unique h') (hrest.unique hrest')

theorem DenotesMembers.unique : ∀ {rs : List (List Piece × Raw)} {a b : List (String × Json)},
    DenotesMembers rs a → DenotesMembers rs b → a = b
  | _, _, _, .nil, .nil => rfl
  | _, _, _, .cons hname h hrest, .cons hname' h' hrest' => by
    obtain rfl := Option.some.inj (hname.symm.trans hname')
    rw [h.unique h', hrest.unique hrest']

end

end Raw

/-! ## Written documents -/

/-- What is written for the document can be read, and denotes it. -/
structure IsWritten (j : Json) : Prop where
  grammatical : j.toRaw.Grammatical
  denotes : j.toRaw.respelled.Denotes j

theorem isWritten_array {items : List Json} (h : ∀ j ∈ items, j.IsWritten) :
    (array items).IsWritten := by
  have hitems : Raw.GrammaticalItems (toRawItems items) ∧
      Raw.DenotesItems (Raw.respelledItems (toRawItems items)) items := by
    induction items with
    | nil => exact ⟨trivial, .nil⟩
    | cons j rest ih =>
      obtain ⟨hj, hrest⟩ := List.forall_mem_cons.1 h
      obtain ⟨hgrammatical, hdenotes⟩ := ih hrest
      exact ⟨⟨hj.grammatical, hgrammatical⟩, .cons hj.denotes hdenotes⟩
  exact ⟨hitems.1, .array hitems.2⟩

theorem isWritten_object {members : List (String × Json)} (h : ∀ m ∈ members, m.2.IsWritten) :
    (object members).IsWritten := by
  have hmembers : Raw.GrammaticalMembers (toRawMembers members) ∧
      Raw.DenotesMembers (Raw.respelledMembers (toRawMembers members)) members := by
    induction members with
    | nil => exact ⟨trivial, .nil⟩
    | cons m rest ih =>
      obtain ⟨hm, hrest⟩ := List.forall_mem_cons.1 h
      obtain ⟨hgrammatical, hdenotes⟩ := ih hrest
      have hname := (decodeString_respelled _).trans (decodeString_chars m.1)
      exact ⟨⟨fits_chars m.1.toList, hm.grammatical, hgrammatical⟩, .cons hname hm.denotes hdenotes⟩
  exact ⟨hmembers.1, .object hmembers.2⟩

theorem readClosed_isWritten : ReadClosed IsWritten where
  null := ⟨trivial, .null⟩
  bool b := ⟨trivial, .bool b⟩
  string s := ⟨fits_chars s.toList,
    .string ((decodeString_respelled _).trans (decodeString_chars s))⟩
  number h := by
    obtain ⟨n, hn, hwellFormed, hstrict, hdenotes⟩ :=
      (Number.isFinite_of_ofNumeral h).exists_numeral
    constructor
    · rw [toRaw, hn]
      exact ⟨hwellFormed, hstrict⟩
    · rw [toRaw, hn]
      exact .number hdenotes
  array h := isWritten_array h
  object {given} h := by
    obtain ⟨members, hmembers, hgiven⟩ := exists_mem_ofMembers given
    rw [hmembers]
    exact isWritten_object fun m hm => h m (hgiven m hm)

/-! ## Depth -/

theorem depthMembers_le_iff {d : ℕ} {members : List (String × Json)} :
    depthMembers members ≤ d ↔ ∀ m ∈ members, m.2.depth ≤ d := by
  induction members with
  | nil => exact iff_of_true (Nat.zero_le d) (List.forall_mem_nil _)
  | cons m rest ih => rw [depthMembers, max_le_iff, List.forall_mem_cons, ih]

mutual

/-- The reader goes down as far as the document is deep. -/
theorem depth_le_of_ofRaw : ∀ {d : ℕ} {r : Raw} {j : Json}, ofRaw d r = some j → j.depth ≤ d
  | _, .null, _, h | _, .bool _, _, h => by
    cases h
    exact Nat.zero_le _
  | _, .number _, _, h => by
    obtain ⟨n, -, rfl⟩ := Option.map_eq_some_iff.1 h
    exact Nat.zero_le _
  | _, .string _, _, h => by
    obtain ⟨s, -, rfl⟩ := Option.map_eq_some_iff.1 h
    exact Nat.zero_le _
  | d, .array _, _, h => by
    rw [ofRaw] at h
    split at h
    · cases h
    · next hd =>
      obtain ⟨items, hitems, rfl⟩ := Option.map_eq_some_iff.1 h
      have hle := depthItems_le_of_ofRawItems hitems
      rw [depth]
      omega
  | d, .object _, _, h => by
    rw [ofRaw] at h
    split at h
    · cases h
    · next hd =>
      obtain ⟨given, hgiven, rfl⟩ := Option.map_eq_some_iff.1 h
      obtain ⟨members, hmembers, hmem⟩ := exists_mem_ofMembers given
      have hle := depth_le_of_ofRawMembers hgiven
      have hdepth : depthMembers members ≤ d - 1 :=
        depthMembers_le_iff.2 fun m hm => hle m (hmem m hm)
      rw [hmembers, depth]
      omega

theorem depthItems_le_of_ofRawItems : ∀ {d : ℕ} {rs : List Raw} {items : List Json},
    ofRawItems d rs = some items → depthItems items ≤ d
  | _, [], _, h => by
    cases h
    exact Nat.zero_le _
  | _, _ :: _, _, h => by
    simp only [ofRawItems, Option.bind_eq_bind, Option.bind_eq_some_iff] at h
    obtain ⟨j, hj, items, hitems, ⟨⟩⟩ := h
    exact max_le (depth_le_of_ofRaw hj) (depthItems_le_of_ofRawItems hitems)

theorem depth_le_of_ofRawMembers : ∀ {d : ℕ} {rs : List (List Piece × Raw)}
    {given : List (String × Json)}, ofRawMembers d rs = some given → ∀ m ∈ given, m.2.depth ≤ d
  | _, [], _, h => by
    cases h
    exact List.forall_mem_nil _
  | _, (_, _) :: _, _, h => by
    simp only [ofRawMembers, Option.bind_eq_bind, Option.bind_eq_some_iff] at h
    obtain ⟨name, -, j, hj, given, hgiven, ⟨⟩⟩ := h
    exact List.forall_mem_cons.2 ⟨depth_le_of_ofRaw hj, depth_le_of_ofRawMembers hgiven⟩

end

/-! ## Texts -/

/-- The text denotes the document, and if it has no floats then it is read back. -/
structure IsTextOf (text : List Char) (j : Json) : Prop where
  denotes : ∃ r, Raw.read text = some r ∧ r.Denotes j
  read : j.FloatFree → Json.read text = some j

/-- **What is written for a document of a text is a text of the document**, in every layout. -/
theorem isTextOf_write {l : Layout} (hl : l.Blank) {r : Raw} {j : Json}
    (h : ofRaw maxDepth r = some j) : IsTextOf (j.toRaw.write l 0) j := by
  have hread : j.IsRead := ⟨maxDepth, r, h⟩
  have hwritten := readClosed_isWritten.of_isRead hread
  have hback := Raw.read_write hl hwritten.grammatical 0
  refine ⟨⟨_, hback, hwritten.denotes⟩, fun hfloat => ?_⟩
  rw [Json.read, hback, Option.bind_some, ofRaw_respelled, ofRaw_toRaw hread.wellFormed hfloat,
    if_pos (depth_le_of_ofRaw h)]

/-- Some of the elements of an array of a text are an array of a text as well. -/
theorem exists_ofRawItems_filter {d : ℕ} (p : Json → Bool) {rs : List Raw} {items : List Json}
    (h : ofRawItems d rs = some items) : ∃ rs', ofRawItems d rs' = some (items.filter p) := by
  induction rs generalizing items with
  | nil =>
    cases h
    exact ⟨[], rfl⟩
  | cons r rest ih =>
    simp only [ofRawItems, Option.bind_eq_bind, Option.bind_eq_some_iff] at h
    obtain ⟨j, hj, items, hitems, ⟨⟩⟩ := h
    obtain ⟨rs, hrs⟩ := ih hitems
    by_cases hp : p j = true
    · exact ⟨r :: rs, by simp [ofRawItems, hj, hrs, hp]⟩
    · exact ⟨rs, by simp [hrs, hp]⟩

theorem toRawItems_eq (items : List Json) : toRawItems items = items.map toRaw := by
  induction items with
  | nil => rfl
  | cons j rest ih => rw [toRawItems, List.map_cons, ih]

/-- Some of the elements of an array that is read, written over several lines. -/
theorem isTextOf_filter {text : List Char} {items : List Json}
    (h : Json.read text = some (.array items)) (p : Json → Bool) :
    IsTextOf (array (items.filter p)).toRaw.pretty (.array (items.filter p)) := by
  obtain ⟨r, -, hr⟩ := Option.bind_eq_some_iff.1 h
  rcases ofRaw_cases hr with ⟨-, ⟨⟩⟩ | ⟨_, -, ⟨⟩⟩ | ⟨_, _, -, -, ⟨⟩⟩ | ⟨_, _, -, -, ⟨⟩⟩ |
    ⟨rs, _, -, hdepth, hitems, ⟨⟩⟩ | ⟨_, _, -, -, -, ⟨⟩⟩
  obtain ⟨rs', hrs'⟩ := exists_ofRawItems_filter p hitems
  refine isTextOf_write Layout.blank_pretty (r := .array rs') ?_
  rw [ofRaw, if_neg hdepth.ne', hrs', Option.map_some]

end RecordFilter.Json

import RecordFilter.Proofs.Json.Members
import RecordFilter.Proofs.Json.Spelling
import RecordFilter.Proofs.Value.Integers

/-!
# Documents are read back

A document without floats that is written is read as the same document, provided that its arrays
and objects are not nested deeper than the reader allows; else it is not read at all
(`ofRaw_toRaw`).

Not everything of the type of documents is a document: an integer has at most 64 bits, and the
members of an object are in the order of their names, each name once. What is read from a text is of
this form (`IsRead.wellFormed`).
-/

namespace RecordFilter.Json

open RecordFilter.Number

/-! ## What documents are -/

/-- An integer of a document fits a word, with sign or without. -/
def Number.WellFormed : Number → Prop
  | integer n => -2 ^ 63 ≤ n ∧ n < 2 ^ 64
  | float _ => True

/-- The members are in the order of their names, each name once. -/
def Ordered (members : List (String × Json)) : Prop := members.Pairwise (·.1 < ·.1)

mutual

/-- Integers are words, and the members of objects are ordered. -/
def WellFormed : Json → Prop
  | null | bool _ | string _ => True
  | number n => n.WellFormed
  | array items => WellFormedItems items
  | object members => Ordered members ∧ WellFormedMembers members

/-- All elements are well formed. -/
def WellFormedItems : List Json → Prop
  | [] => True
  | j :: rest => j.WellFormed ∧ WellFormedItems rest

/-- The documents of all members are well formed. -/
def WellFormedMembers : List (String × Json) → Prop
  | [] => True
  | (_, j) :: rest => j.WellFormed ∧ WellFormedMembers rest

end

mutual

/-- No number of the document is a float. -/
def FloatFree : Json → Prop
  | null | bool _ | string _ | number (.integer _) => True
  | number (.float _) => False
  | array items => FloatFreeItems items
  | object members => FloatFreeMembers members

/-- No number of the elements is a float. -/
def FloatFreeItems : List Json → Prop
  | [] => True
  | j :: rest => j.FloatFree ∧ FloatFreeItems rest

/-- No number of the members is a float. -/
def FloatFreeMembers : List (String × Json) → Prop
  | [] => True
  | (_, j) :: rest => j.FloatFree ∧ FloatFreeMembers rest

end

mutual

/-- How deep arrays and objects are nested. -/
def depth : Json → ℕ
  | null | bool _ | string _ | number _ => 0
  | array items => depthItems items + 1
  | object members => depthMembers members + 1

/-- How deep the deepest element is nested. -/
def depthItems : List Json → ℕ
  | [] => 0
  | j :: rest => max j.depth (depthItems rest)

/-- How deep the document of the deepest member is nested. -/
def depthMembers : List (String × Json) → ℕ
  | [] => 0
  | (_, j) :: rest => max j.depth (depthMembers rest)

end

/-! ## Members -/

section

variable {name : String} {j : Json} {members : List (String × Json)}

theorem wellFormedMembers_iff : WellFormedMembers members ↔ ∀ m ∈ members, m.2.WellFormed := by
  induction members with
  | nil => exact iff_of_true trivial (List.forall_mem_nil _)
  | cons m rest ih => rw [WellFormedMembers, List.forall_mem_cons, ih]

theorem WellFormed.member (h : (object members).WellFormed) (hj : member? name members = some j) :
    j.WellFormed := by
  obtain ⟨m, hm, rfl⟩ := Option.map_eq_some_iff.1 hj
  exact wellFormedMembers_iff.1 h.2 m (List.mem_of_find?_eq_some hm)

/-- A member behind all others is put in at the end. -/
theorem insertMember_of_lt (h : ∀ m ∈ members, m.1 < name) :
    insertMember name j members = members ++ [(name, j)] := by
  induction members with
  | nil => rfl
  | cons m rest ih =>
    obtain ⟨hm, hrest⟩ := List.forall_mem_cons.1 h
    rw [insertMember, if_neg (lt_asymm hm), if_neg (ne_of_gt hm), ih hrest]
    rfl

/-- Members that are in order are put in one behind another. -/
theorem ofMembers_of_ordered (h : Ordered members) : ofMembers members = object members := by
  have hfold : ∀ done, Ordered (done ++ members) →
      members.foldl (fun done m => insertMember m.1 m.2 done) done = done ++ members := by
    clear h
    induction members with
    | nil => exact fun done _ => (List.append_nil done).symm
    | cons m rest ih =>
      intro done hdone
      have hlt : ∀ k ∈ done, k.1 < m.1 := fun k hk =>
        (List.pairwise_append.1 hdone).2.2 k hk m List.mem_cons_self
      rw [List.append_cons] at hdone ⊢
      rw [List.foldl_cons, insertMember_of_lt hlt]
      exact ih _ hdone
  exact congrArg object (hfold [] h)

end

/-! ## The written form -/

theorem grammatical_number {n : Number} (h : (number n).FloatFree) : n.toRaw.Grammatical := by
  cases n with
  | integer i => exact ⟨(plain_ofInt i).toWellFormed, strict_ofInt i⟩
  | float x => exact h.elim

mutual

theorem grammatical_toRaw : ∀ {j : Json}, j.FloatFree → j.toRaw.Grammatical
  | null, _ | bool _, _ => trivial
  | number _, h => grammatical_number h
  | string s, _ => fits_chars s.toList
  | array _, h => grammatical_toRawItems h
  | object _, h => grammatical_toRawMembers h

theorem grammatical_toRawItems : ∀ {items : List Json}, FloatFreeItems items →
    Raw.GrammaticalItems (toRawItems items)
  | [], _ => trivial
  | _ :: _, h => ⟨grammatical_toRaw h.1, grammatical_toRawItems h.2⟩

theorem grammatical_toRawMembers : ∀ {members : List (String × Json)}, FloatFreeMembers members →
    Raw.GrammaticalMembers (toRawMembers members)
  | [], _ => trivial
  | (name, _) :: _, h =>
    ⟨fits_chars name.toList, grammatical_toRaw h.1, grammatical_toRawMembers h.2⟩

end

/-- An integer is read back. -/
theorem ofRaw_number (depth : ℕ) {n : Number} (h : n.WellFormed) (hfloat : (number n).FloatFree) :
    ofRaw depth n.toRaw = some (number n) := by
  cases n with
  | integer i =>
    rw [Number.toRaw, ofRaw, ofNumeral_ofInt h.1 h.2]
    rfl
  | float x => exact hfloat.elim

/-- One level more of nesting. -/
theorem map_nested {α β : Type} (depth d : ℕ) (x : α) (f : α → β) :
    (if depth = 0 then none else (if d ≤ depth - 1 then some x else none).map f) =
      if d + 1 ≤ depth then some (f x) else none := by
  rcases depth with _ | depth
  · rfl
  · rw [if_neg depth.succ_ne_zero, Nat.add_sub_cancel]
    simp only [Nat.succ_le_succ_iff]
    split <;> rfl

mutual

/-- **A document is read back** as far as the reader goes down. -/
theorem ofRaw_toRaw : ∀ {depth : ℕ} {j : Json}, j.WellFormed → j.FloatFree →
    ofRaw depth j.toRaw = if j.depth ≤ depth then some j else none
  | depth, null, _, _ | depth, bool _, _, _ => (if_pos (Nat.zero_le depth)).symm
  | depth, number _, h, hfloat =>
    (ofRaw_number depth h hfloat).trans (if_pos (Nat.zero_le depth)).symm
  | depth, string s, _, _ => by
    rw [toRaw, Raw.text, ofRaw, decodeString_chars]
    exact (if_pos (Nat.zero_le depth)).symm
  | depth, array items, h, hfloat => by
    have hitems : ofRawItems (depth - 1) (toRawItems items) = _ := ofRawItems_toRawItems h hfloat
    rw [toRaw, ofRaw, Json.depth, hitems]
    exact map_nested depth (depthItems items) items array
  | depth, object members, h, hfloat => by
    have hmembers : ofRawMembers (depth - 1) (toRawMembers members) = _ :=
      ofRawMembers_toRawMembers h.2 hfloat
    rw [toRaw, ofRaw, Json.depth, hmembers, map_nested, ofMembers_of_ordered h.1]

theorem ofRawItems_toRawItems : ∀ {depth : ℕ} {items : List Json}, WellFormedItems items →
    FloatFreeItems items →
    ofRawItems depth (toRawItems items) = if depthItems items ≤ depth then some items else none
  | depth, [], _, _ => (if_pos (Nat.zero_le depth)).symm
  | depth, j :: rest, h, hfloat => by
    rw [toRawItems, ofRawItems, ofRaw_toRaw h.1 hfloat.1, ofRawItems_toRawItems h.2 hfloat.2,
      depthItems]
    simp only [max_le_iff]
    split_ifs <;> simp_all

theorem ofRawMembers_toRawMembers : ∀ {depth : ℕ} {members : List (String × Json)},
    WellFormedMembers members → FloatFreeMembers members →
    ofRawMembers depth (toRawMembers members) =
      if depthMembers members ≤ depth then some members else none
  | depth, [], _, _ => (if_pos (Nat.zero_le depth)).symm
  | depth, (name, j) :: rest, h, hfloat => by
    rw [toRawMembers, ofRawMembers, ofRaw_toRaw h.1 hfloat.1,
      ofRawMembers_toRawMembers h.2 hfloat.2, decodeString_chars, depthMembers]
    simp only [max_le_iff]
    split_ifs <;> simp_all

end

/-! ## Documents of texts -/

theorem Number.wellFormed_of_ofWord {negative : Bool} {m : ℕ} {n : Number} (hm : m < wordBound)
    (h : ofWord negative m = some n) : n.WellFormed := by
  have hbound : (wordBound : ℤ) = 2 ^ 64 := by decide
  unfold ofWord at h
  split at h
  · cases h
    exact ⟨by omega, by omega⟩
  split at h
  · next hfits =>
    cases h
    obtain ⟨hmin, hmax⟩ := Kind.fitsWord_bits_iff (k := .int64).1 hfits.2
    exact ⟨hmin, hmax.trans (by decide)⟩
  · cases h
    trivial

/-- A numeral without point and exponent is an integer only within a word. -/
theorem Number.wellFormed_of_ofNumeral {m : Numeral} {n : Number} (h : ofNumeral m = some n) :
    n.WellFormed := by
  cases n with
  | float x => trivial
  | integer i =>
    unfold ofNumeral at h
    dsimp only at h
    split at h
    · unfold withExponent at h
      split at h
      · exact absurd h ofParts_ne_integer
      split at h <;> cases h
    split at h
    · have hpos : 0 < wordBound := by decide
      exact wellFormed_of_ofWord (takeWord_lt hpos) h
    · exact absurd h ofParts_ne_integer

section

variable {name : String} {j : Json} {members : List (String × Json)}

theorem Ordered.insertMember (h : Ordered members) (name : String) (j : Json) :
    Ordered (insertMember name j members) := by
  induction members with
  | nil => exact List.pairwise_singleton _ _
  | cons k rest ih =>
    obtain ⟨hk, hrest⟩ := List.pairwise_cons.1 h
    rw [Json.insertMember]
    split
    · next hlt =>
      refine .cons (List.forall_mem_cons.2 ⟨hlt, fun m hm => hlt.trans (hk m hm)⟩) h
    split
    · next heq =>
      subst heq
      exact .cons hk hrest
    · next hlt hne =>
      refine .cons (fun m hm => ?_) (ih hrest)
      rcases mem_insertMember hm with rfl | hm
      · exact lt_of_le_of_ne (not_lt.1 hlt) (Ne.symm hne)
      · exact hk m hm

theorem exists_ordered_ofMembers (given : List (String × Json)) :
    ∃ members, ofMembers given = object members ∧ Ordered members := by
  have hfold : ∀ done, Ordered done →
      Ordered (given.foldl (fun done m => insertMember m.1 m.2 done) done) := by
    induction given with
    | nil => exact fun done hdone => hdone
    | cons m rest ih => exact fun done hdone => ih _ (hdone.insertMember m.1 m.2)
  exact ⟨_, rfl, hfold [] .nil⟩

end

theorem wellFormedItems_iff {items : List Json} :
    WellFormedItems items ↔ ∀ j ∈ items, j.WellFormed := by
  induction items with
  | nil => exact iff_of_true trivial (List.forall_mem_nil _)
  | cons j rest ih => rw [WellFormedItems, List.forall_mem_cons, ih]

theorem readClosed_wellFormed : ReadClosed WellFormed where
  null := trivial
  bool _ := trivial
  string _ := trivial
  number h := Number.wellFormed_of_ofNumeral h
  array h := wellFormedItems_iff.2 h
  object {given} h := by
    obtain ⟨members, hmembers, hordered⟩ := exists_ordered_ofMembers given
    obtain ⟨members', hmembers', hgiven⟩ := exists_mem_ofMembers given
    obtain rfl := Json.object.inj (hmembers.symm.trans hmembers')
    rw [hmembers]
    exact ⟨hordered, wellFormedMembers_iff.2 fun m hm => h m (hgiven m hm)⟩

/-- **A document of a text is well formed.** -/
theorem IsRead.wellFormed {j : Json} (h : j.IsRead) : j.WellFormed :=
  readClosed_wellFormed.of_isRead h

end RecordFilter.Json

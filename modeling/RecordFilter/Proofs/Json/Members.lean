import Mathlib.Data.List.Basic
import RecordFilter.Json.Value

/-!
# Members of objects

An object keeps its members in the order of their names, whatever their order in the text, and they
are looked up by name. Of the members of a text with one name the last one is found
(`exists_ofMembers`). So what is found in a document of a text is itself a document of a text
(`IsRead.member`).
-/

namespace RecordFilter.Json

variable {name other : String} {j : Json} {members : List (String × Json)}

theorem member?_nil (name : String) : member? name [] = none := rfl

theorem member?_cons :
    member? name ((other, j) :: members) =
      if other = name then some j else member? name members := by
  unfold member?
  rw [List.find?_cons]
  by_cases h : other = name <;> simp [h]

theorem member?_append (members more : List (String × Json)) :
    member? name (members ++ more) = (member? name members).or (member? name more) := by
  unfold member?
  rw [List.find?_append, Option.map_or]

/-- A member that is put in is found under its name, and the others as before. -/
theorem member?_insertMember :
    member? name (insertMember other j members) =
      if other = name then some j else member? name members := by
  induction members with
  | nil => rw [insertMember, member?_cons]
  | cons m rest ih =>
    obtain ⟨first, i⟩ := m
    rw [insertMember]
    split
    · rw [member?_cons]
    split
    · next hfirst =>
      subst hfirst
      rw [member?_cons, member?_cons]
      split <;> rfl
    · next hfirst =>
      rw [member?_cons, member?_cons, ih]
      split <;> split <;> simp_all

/-- The last of the members of a text that have the name. -/
def lastMember? (name : String) (given : List (String × Json)) : Option Json :=
  member? name given.reverse

theorem lastMember?_cons :
    lastMember? name ((other, j) :: members) =
      (lastMember? name members).or (if other = name then some j else none) := by
  rw [lastMember?, List.reverse_cons, member?_append, member?_cons, member?_nil, lastMember?]

/-- The members of a text, with those that were put in before. -/
theorem member?_foldl_insertMember (given done : List (String × Json)) :
    member? name (given.foldl (fun done m => insertMember m.1 m.2 done) done) =
      (lastMember? name given).or (member? name done) := by
  induction given generalizing done with
  | nil => rfl
  | cons m rest ih =>
    obtain ⟨first, i⟩ := m
    rw [List.foldl_cons, ih, member?_insertMember, lastMember?_cons, Option.or_assoc]
    split <;> rfl

/-- **Of the members of a text with one name the last one counts.** -/
theorem exists_ofMembers (given : List (String × Json)) :
    ∃ members, ofMembers given = .object members ∧
      ∀ name, member? name members = lastMember? name given := by
  refine ⟨_, rfl, fun name => ?_⟩
  rw [member?_foldl_insertMember, member?_nil, Option.or_none]

theorem mem_insertMember {m : String × Json} (h : m ∈ insertMember name j members) :
    m = (name, j) ∨ m ∈ members := by
  induction members with
  | nil => exact .inl (List.mem_singleton.1 h)
  | cons k rest ih =>
    rw [insertMember] at h
    split at h
    · exact List.mem_cons.1 h
    split at h
    · exact (List.mem_cons.1 h).imp_right (List.mem_cons_of_mem k)
    · rcases List.mem_cons.1 h with rfl | h
      · exact .inr List.mem_cons_self
      · exact (ih h).imp_right (List.mem_cons_of_mem k)

/-- An object has no members but those of the text. -/
theorem exists_mem_ofMembers (given : List (String × Json)) :
    ∃ members, ofMembers given = .object members ∧ ∀ m ∈ members, m ∈ given := by
  have hfold : ∀ done, ∀ m ∈ given.foldl (fun done m => insertMember m.1 m.2 done) done,
      m ∈ done ∨ m ∈ given := by
    induction given with
    | nil => exact fun done m hm => .inl hm
    | cons k rest ih =>
      intro done m hm
      rcases ih _ m hm with hm | hm
      · rcases mem_insertMember hm with rfl | hm
        · exact .inr List.mem_cons_self
        · exact .inl hm
      · exact .inr (List.mem_cons_of_mem k hm)
  exact ⟨_, rfl, fun m hm => (hfold [] m hm).resolve_left (List.not_mem_nil)⟩

/-! ## Documents of texts -/

/-- The document is what a text is read as, or a part of one. -/
def IsRead (j : Json) : Prop := ∃ depth r, ofRaw depth r = some j

theorem isRead_of_read {s : List Char} (h : read s = some j) : j.IsRead := by
  obtain ⟨r, -, hr⟩ := Option.bind_eq_some_iff.1 h
  exact ⟨maxDepth, r, hr⟩

/-- A property of documents that everything has that is read from a text, if its parts have it. -/
structure ReadClosed (P : Json → Prop) : Prop where
  null : P .null
  bool : ∀ b, P (.bool b)
  string : ∀ s, P (.string s)
  number : ∀ {m n}, Number.ofNumeral m = some n → P (.number n)
  array : ∀ {items : List Json}, (∀ j ∈ items, P j) → P (.array items)
  object : ∀ {given : List (String × Json)}, (∀ m ∈ given, P m.2) → P (ofMembers given)

section

variable {P : Json → Prop}

mutual

theorem ReadClosed.of_ofRaw (h : ReadClosed P) {depth : Nat} : ∀ {r : Raw} {j : Json},
    ofRaw depth r = some j → P j
  | .null, _, hr => by
    cases hr
    exact h.null
  | .bool b, _, hr => by
    cases hr
    exact h.bool b
  | .number _, _, hr => by
    obtain ⟨n, hn, rfl⟩ := Option.map_eq_some_iff.1 hr
    exact h.number hn
  | .string _, _, hr => by
    obtain ⟨s, -, rfl⟩ := Option.map_eq_some_iff.1 hr
    exact h.string s
  | .array _, _, hr => by
    rw [ofRaw] at hr
    split at hr
    · cases hr
    · obtain ⟨items, hitems, rfl⟩ := Option.map_eq_some_iff.1 hr
      exact h.array (h.of_ofRawItems hitems)
  | .object _, _, hr => by
    rw [ofRaw] at hr
    split at hr
    · cases hr
    · obtain ⟨given, hgiven, rfl⟩ := Option.map_eq_some_iff.1 hr
      exact h.object (h.of_ofRawMembers hgiven)

theorem ReadClosed.of_ofRawItems (h : ReadClosed P) {depth : Nat} :
    ∀ {rs : List Raw} {items : List Json}, ofRawItems depth rs = some items → ∀ j ∈ items, P j
  | [], _, hrs => by
    cases hrs
    exact List.forall_mem_nil _
  | r :: rest, _, hrs => by
    simp only [ofRawItems, Option.bind_eq_bind, Option.bind_eq_some_iff] at hrs
    obtain ⟨j, hj, items, hitems, ⟨⟩⟩ := hrs
    exact List.forall_mem_cons.2 ⟨h.of_ofRaw hj, h.of_ofRawItems hitems⟩

theorem ReadClosed.of_ofRawMembers (h : ReadClosed P) {depth : Nat} :
    ∀ {rs : List (List Piece × Raw)} {given : List (String × Json)},
      ofRawMembers depth rs = some given → ∀ m ∈ given, P m.2
  | [], _, hrs => by
    cases hrs
    exact List.forall_mem_nil _
  | (name, r) :: rest, _, hrs => by
    simp only [ofRawMembers, Option.bind_eq_bind, Option.bind_eq_some_iff] at hrs
    obtain ⟨name, -, j, hj, given, hgiven, ⟨⟩⟩ := hrs
    exact List.forall_mem_cons.2 ⟨h.of_ofRaw hj, h.of_ofRawMembers hgiven⟩

end

/-- **Induction over what is read from a text.** -/
theorem ReadClosed.of_isRead (h : ReadClosed P) (hj : j.IsRead) : P j := by
  obtain ⟨depth, r, hr⟩ := hj
  exact h.of_ofRaw hr

end

/-- What a document is read from. -/
theorem ofRaw_cases {depth : Nat} {r : Raw} (h : ofRaw depth r = some j) :
    (r = .null ∧ j = null) ∨ (∃ b, r = .bool b ∧ j = bool b) ∨
      (∃ m n, r = .number m ∧ Number.ofNumeral m = some n ∧ j = number n) ∨
      (∃ s t, r = .string s ∧ decodeString s = some t ∧ j = string t) ∨
      (∃ rs items, r = .array rs ∧ 0 < depth ∧ ofRawItems (depth - 1) rs = some items ∧
        j = array items) ∨
      ∃ rs given, r = .object rs ∧ 0 < depth ∧ ofRawMembers (depth - 1) rs = some given ∧
        j = ofMembers given := by
  cases r with
  | null => exact .inl ⟨rfl, (Option.some.inj h).symm⟩
  | bool b => exact .inr (.inl ⟨b, rfl, (Option.some.inj h).symm⟩)
  | number m =>
    obtain ⟨n, hn, rfl⟩ := Option.map_eq_some_iff.1 h
    exact .inr (.inr (.inl ⟨m, n, rfl, hn, rfl⟩))
  | string s =>
    rw [ofRaw] at h
    obtain ⟨t, ht, rfl⟩ := Option.map_eq_some_iff.1 h
    exact .inr (.inr (.inr (.inl ⟨s, t, rfl, ht, rfl⟩)))
  | array rs =>
    rw [ofRaw] at h
    split at h
    · cases h
    · next hdepth =>
      obtain ⟨items, hitems, rfl⟩ := Option.map_eq_some_iff.1 h
      exact .inr (.inr (.inr (.inr (.inl
        ⟨rs, items, rfl, Nat.pos_of_ne_zero hdepth, hitems, rfl⟩))))
  | object rs =>
    rw [ofRaw] at h
    split at h
    · cases h
    · next hdepth =>
      obtain ⟨given, hgiven, rfl⟩ := Option.map_eq_some_iff.1 h
      exact .inr (.inr (.inr (.inr (.inr
        ⟨rs, given, rfl, Nat.pos_of_ne_zero hdepth, hgiven, rfl⟩))))

/-- A number of a text is the one of a numeral. -/
theorem IsRead.exists_numeral {n : Number} (h : (number n).IsRead) :
    ∃ m, Number.ofNumeral m = some n := by
  obtain ⟨depth, r, hr⟩ := h
  rcases ofRaw_cases hr with ⟨-, ⟨⟩⟩ | ⟨_, -, ⟨⟩⟩ | ⟨m, _, -, hm, ⟨⟩⟩ | ⟨_, _, -, -, ⟨⟩⟩ |
    ⟨_, _, -, -, -, ⟨⟩⟩ | ⟨_, _, -, -, -, ⟨⟩⟩
  exact ⟨m, hm⟩

theorem isRead_of_mem {depth : Nat} {rs : List (List Piece × Raw)}
    (h : ofRawMembers depth rs = some members) : ∀ m ∈ members, m.2.IsRead := by
  induction rs generalizing members with
  | nil =>
    cases h
    exact List.forall_mem_nil _
  | cons r rest ih =>
    obtain ⟨pieces, raw⟩ := r
    simp only [ofRawMembers, Option.bind_eq_bind, Option.bind_eq_some_iff] at h
    obtain ⟨name, -, j, hj, others, hothers, ⟨⟩⟩ := h
    exact List.forall_mem_cons.2 ⟨⟨depth, raw, hj⟩, ih hothers⟩

/-- **A member of a document of a text is one of a text.** -/
theorem IsRead.member (h : (object members).IsRead) (hj : member? name members = some j) :
    j.IsRead := by
  obtain ⟨depth, r, hr⟩ := h
  rcases ofRaw_cases hr with ⟨-, ⟨⟩⟩ | ⟨_, -, ⟨⟩⟩ | ⟨_, _, -, -, ⟨⟩⟩ | ⟨_, _, -, -, ⟨⟩⟩ |
    ⟨_, _, -, -, -, ⟨⟩⟩ | ⟨rs, given, -, -, hgiven, heq⟩
  obtain ⟨found, hfound, hlast⟩ := exists_ofMembers given
  obtain rfl : members = found := Json.object.inj (heq.trans hfound)
  rw [hlast] at hj
  obtain ⟨m, hm, rfl⟩ := Option.map_eq_some_iff.1 hj
  exact isRead_of_mem hgiven m (List.mem_reverse.1 (List.mem_of_find?_eq_some hm))

end RecordFilter.Json

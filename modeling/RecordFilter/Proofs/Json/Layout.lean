import RecordFilter.Proofs.Json.Numerals

/-!
# Written texts are read back

What is written in a layout is read as what was written (`Raw.read_write`), on one line or over
several, but for the spelling of its strings: a control character without a short escape is written
as a code unit, and is one when it is read. The text of a string is the same (`decode_respelled`).

The readers work from the head of a text, so everything is stated behind arbitrary blanks and before
an arbitrary rest. A value ends where a numeral cannot go on: at the end of the text, at a blank, at
a comma or at a bracket.
-/

namespace RecordFilter.Json

open RecordFilter.Filter Text

/-! ## Strings -/

/-- A control character that is written with a letter. -/
def hasShortEscape (c : Char) : Bool :=
  c == '\n' || c == '\r' || c == '\t' || c == '\x08' || c == '\x0c'

/-- The element of a string that is read where this one is written. -/
def Piece.respelled : Piece → Piece
  | char c => if c.toNat < 0x20 && !hasShortEscape c then unit c.toNat else char c
  | unit n => unit n

/-- A code unit has 16 bits. -/
def Piece.Fits : Piece → Prop
  | char _ => True
  | unit n => n < 65536

theorem hexValue?_digitChar {d : ℕ} (h : d < 16) : hexValue? (Nat.digitChar d) = some d := by
  have hall : ∀ d < 16, hexValue? (Nat.digitChar d) = some d := by decide
  exact hall d h

theorem unitOf?_writeUnit {n : ℕ} (h : n < 65536) :
    unitOf? (Nat.digitChar (n / 4096 % 16)) (Nat.digitChar (n / 256 % 16))
      (Nat.digitChar (n / 16 % 16)) (Nat.digitChar (n % 16)) = some n := by
  simp only [unitOf?, hexValue?_digitChar (Nat.mod_lt _ (by decide : 0 < 16)),
    Option.bind_eq_bind, Option.bind_some, Option.some.injEq]
  omega

/-- A code unit is read as it is written. -/
theorem readPieces_unit {n : ℕ} (h : n < 65536) (s : List Char) :
    readPieces ('\\' :: 'u' :: writeUnit n ++ s) =
      (readPieces s).map fun (pieces, rest) => (.unit n :: pieces, rest) := by
  simp only [writeUnit, List.map_cons, List.map_nil, List.cons_append, List.nil_append]
  rw [readPieces, unitOf?_writeUnit h]
  cases readPieces s <;> rfl

/-- A character that needs no escape is read as it stands. -/
theorem readPieces_plain {c : Char} (hquote : c ≠ '"') (hslash : c ≠ '\\') (hc : ¬ c.toNat < 0x20)
    (s : List Char) :
    readPieces (c :: s) = (readPieces s).map fun (pieces, rest) => (.char c :: pieces, rest) := by
  rw [readPieces, if_neg (not_or.2 ⟨hc, hslash⟩)]
  · cases readPieces s <;> rfl
  · exact hquote
  · exact fun _ _ _ _ _ h _ => hslash h
  · exact fun _ _ h _ => hslash h

theorem readPieces_char (c : Char) (s : List Char) :
    readPieces (writeChar c ++ s) =
      (readPieces s).map fun (pieces, rest) => ((Piece.char c).respelled :: pieces, rest) := by
  have hescaped (d e : Char) (hd : d ≠ 'u') (he : escaped? d = some e) :
      readPieces ('\\' :: d :: s) =
        (readPieces s).map fun (pieces, rest) => (.char e :: pieces, rest) := by
    rw [readPieces, he]
    · cases readPieces s <;> rfl
    · exact fun _ _ _ _ _ h _ => hd h
  unfold writeChar
  split_ifs with hquote hslash hn hr ht hb hf hcontrol
  · subst hquote
    exact hescaped _ _ (by decide) rfl
  · subst hslash
    exact hescaped _ _ (by decide) rfl
  · subst hn
    exact hescaped _ _ (by decide) rfl
  · subst hr
    exact hescaped _ _ (by decide) rfl
  · subst ht
    exact hescaped _ _ (by decide) rfl
  · subst hb
    exact hescaped _ _ (by decide) rfl
  · subst hf
    exact hescaped _ _ (by decide) rfl
  · rw [readPieces_unit (hcontrol.trans (by decide)), Piece.respelled, if_pos]
    simp [hasShortEscape, hcontrol, hn, hr, ht, hb, hf]
  · rw [List.singleton_append, readPieces_plain hquote hslash hcontrol, Piece.respelled, if_neg]
    simp [hcontrol]

theorem readPieces_piece {p : Piece} (hp : p.Fits) (s : List Char) :
    readPieces (p.write ++ s) =
      (readPieces s).map fun (pieces, rest) => (p.respelled :: pieces, rest) := by
  cases p with
  | char c => exact readPieces_char c s
  | unit n => exact readPieces_unit hp s

/-- The elements of a string are read back up to the closing quote. -/
theorem readPieces_append {s : List Piece} (hs : ∀ p ∈ s, p.Fits) (rest : List Char) :
    readPieces (s.flatMap Piece.write ++ '"' :: rest) = some (s.map Piece.respelled, rest) := by
  induction s with
  | nil => rw [List.flatMap_nil, List.nil_append, readPieces]; rfl
  | cons p s ih =>
    obtain ⟨hp, hs⟩ := List.forall_mem_cons.1 hs
    rw [List.flatMap_cons, List.append_assoc, readPieces_piece hp, ih hs]
    rfl

theorem respelled_char (c : Char) :
    (Piece.char c).respelled = .char c ∨
      (Piece.char c).respelled = .unit c.toNat ∧ c.toNat < 0x20 := by
  rw [Piece.respelled]
  split
  · next h =>
    rw [Bool.and_eq_true, decide_eq_true_eq] at h
    exact .inr ⟨rfl, h.1⟩
  · exact .inl rfl

theorem decode_unit (n : ℕ) (rest : List Piece) :
    decode (.unit n :: rest) =
      if n < 0xD800 ∨ 0xDFFF < n then (decode rest).map (Char.ofNat n :: ·)
      else match rest with
        | .unit low :: rest =>
          if n < 0xDC00 ∧ 0xDC00 ≤ low ∧ low ≤ 0xDFFF then
            (decode rest).map (surrogatePair n low :: ·)
          else none
        | _ => none :=
  decode.eq_def (.unit n :: rest)

/-- Both spellings stand for one text. -/
theorem decode_respelled (s : List Piece) : decode (s.map Piece.respelled) = decode s := by
  fun_induction decode s with
  | case1 => rfl
  | case2 c rest ih =>
    rw [List.map_cons]
    rcases respelled_char c with h | ⟨h, hlt⟩
    · rw [h, decode, ih]
    · rw [h, decode_unit, if_pos (.inl (hlt.trans (by decide))), ih, Char.ofNat_toNat]
  | case3 n rest hn ih => rw [List.map_cons, Piece.respelled, decode_unit, if_pos hn, ih]
  | case4 n hn low rest hlow ih =>
    rw [List.map_cons, List.map_cons, Piece.respelled, Piece.respelled, decode_unit, if_neg hn,
      ← ih]
    exact if_pos hlow
  | case5 n hn low rest hlow =>
    rw [List.map_cons, List.map_cons, Piece.respelled, Piece.respelled, decode_unit, if_neg hn]
    exact if_neg hlow
  | case6 n rest hn hrest =>
    rw [List.map_cons, Piece.respelled, decode_unit, if_neg hn]
    -- a control character is no second half of a pair either
    cases rest with
    | nil => rfl
    | cons p rest =>
      cases p with
      | unit low => exact (hrest low rest rfl).elim
      | char c =>
        rw [List.map_cons]
        rcases respelled_char c with h | ⟨h, hlt⟩
        · rw [h]
        · have hlow : ¬ 0xDC00 ≤ c.toNat := by omega
          rw [h]
          exact if_neg fun hpair => hlow hpair.2.1

theorem decodeString_respelled (s : List Piece) :
    decodeString (s.map Piece.respelled) = decodeString s :=
  congrArg (Option.map String.ofList) (decode_respelled s)

/-! ## Strings of characters -/

theorem fits_chars (s : List Char) : ∀ p ∈ s.map Piece.char, p.Fits := by
  intro p hp
  obtain ⟨c, -, rfl⟩ := List.mem_map.1 hp
  trivial

/-- The text of characters is these characters. -/
theorem decodeString_chars (s : String) : decodeString (s.toList.map .char) = some s := by
  have hchars : ∀ cs : List Char, decode (cs.map .char) = some cs := by
    intro cs
    induction cs with
    | nil => rfl
    | cons c cs ih =>
      rw [List.map_cons, decode, ih]
      rfl
  rw [decodeString, hchars, Option.map_some, String.ofList_toList]

/-! ## Blanks -/

section

variable {c : Char} {s t u w : List Char}

theorem skipSpace_append_of_run (hw : Run isSpace w) (s : List Char) :
    skipSpace (w ++ s) = skipSpace s :=
  List.dropWhile_append_of_pos hw

/-- Blanks before a character that is none. -/
theorem skipSpace_blanks (hw : Run isSpace w) (hc : isSpace c = false) (s : List Char) :
    skipSpace (w ++ c :: s) = c :: s := by
  rw [skipSpace_append_of_run hw, skipSpace_of_not hc]

theorem length_lt_of_skipSpace (h : skipSpace s = c :: t) : t.length < s.length := by
  have hle := skipSpace_length_le s
  rw [h] at hle
  exact hle

theorem goesOn_of_isSpace (h : isSpace c = true) : Numeral.goesOn c = false := by
  simp only [isSpace, Bool.or_eq_true, beq_iff_eq] at h
  rcases h with ((rfl | rfl) | rfl) | rfl <;> rfl

theorem stops_blanks (hw : Run isSpace w) (hs : Stops Numeral.goesOn s) :
    Stops Numeral.goesOn (w ++ s) := by
  cases w with
  | nil => exact hs
  | cons c w => exact stops_cons.2 (goesOn_of_isSpace (hw c List.mem_cons_self))

/-- Behind its blanks a text begins with what closes nothing. -/
def Opens (s : List Char) : Prop := ∃ c t, skipSpace s = c :: t ∧ c ≠ ']' ∧ c ≠ '\x7d'

theorem opens_cons (hspace : isSpace c = false) (harray : c ≠ ']') (hobject : c ≠ '\x7d') :
    Opens (c :: s) :=
  ⟨c, s, skipSpace_of_not hspace, harray, hobject⟩

theorem Opens.append (h : Opens s) (u : List Char) : Opens (s ++ u) := by
  obtain ⟨c, t, hs, hc⟩ := h
  refine ⟨c, t ++ u, ?_, hc⟩
  rw [skipSpace, List.dropWhile_append]
  rw [skipSpace] at hs
  rw [hs]
  rfl

theorem Opens.blanks (h : Opens s) (hw : Run isSpace w) : Opens (w ++ s) := by
  rw [Opens, skipSpace_append_of_run hw]
  exact h

end

/-- Nothing but blanks is put between the parts of a text. -/
structure Layout.Blank (l : Layout) : Prop where
  line : ∀ depth, Run isSpace (l.line depth)
  gap : Run isSpace l.gap

theorem Layout.blank_compact : Layout.compact.Blank := ⟨fun _ => nofun, nofun⟩

theorem Layout.blank_pretty : Layout.pretty.Blank where
  line _ := run_cons.2 ⟨rfl, fun _ hc => List.eq_of_mem_replicate hc ▸ rfl⟩
  gap := run_of_all rfl

/-! ## Readers of the head of a text -/

/-- What is read from the head of a text is this value, and this rest is left. -/
def Gives {α : Type} {s : List Char} (o : Option (Taken α s)) (v : α) (rest : List Char) : Prop :=
  ∃ h, o = some ⟨v, rest, h⟩

section

variable {α : Type} {c : Char} {s t u w rest : List Char} {r : Raw} {rs : List Raw}
  {name : List Piece} {ms : List (List Piece × Raw)}

theorem gives_taken? {v : α} (h : rest.length < s.length) : Gives (taken? s (v, rest)) v rest :=
  ⟨h, dif_pos h⟩

theorem eq_of_skipSpace {d : Char} (hs : skipSpace s = c :: t) (h : skipSpace s = d :: u) :
    c = d ∧ t = u :=
  List.cons.inj (hs.symm.trans h)

namespace Raw

theorem gives_scalar (hs : skipSpace s = c :: t) (harray : c ≠ '[') (hobject : c ≠ '\x7b')
    (h : readScalar (c :: t) = some (r, rest)) (hlt : rest.length < (c :: t).length) :
    Gives (readValue s) r rest := by
  have hle := skipSpace_length_le s
  rw [hs] at hle
  rw [readValue]
  split
  · next heq => exact absurd (eq_of_skipSpace hs heq).1 harray
  · next heq => exact absurd (eq_of_skipSpace hs heq).1 hobject
  · rw [hs, h]
    exact gives_taken? (hlt.trans_le hle)

theorem gives_array_nil (hs : skipSpace s = '[' :: t) (ht : skipSpace t = ']' :: rest) :
    Gives (readValue s) (.array []) rest := by
  rw [readValue]
  split
  · next heq =>
    obtain ⟨-, rfl⟩ := eq_of_skipSpace hs heq
    rw [ht]
    exact gives_taken? ((length_lt_of_skipSpace ht).trans (length_lt_of_skipSpace hs))
  · next heq => exact absurd (eq_of_skipSpace hs heq).1 (by decide)
  · next hne _ => exact absurd hs (hne _)

theorem gives_array (hs : skipSpace s = '[' :: t) (ht : Opens t) (h : Gives (readItems t) rs rest) :
    Gives (readValue s) (.array rs) rest := by
  obtain ⟨hlt, h⟩ := h
  rw [readValue]
  split
  · next heq =>
    obtain ⟨-, rfl⟩ := eq_of_skipSpace hs heq
    split
    · next heq =>
      obtain ⟨c, u, ht, hc, -⟩ := ht
      exact absurd (eq_of_skipSpace ht heq).1 hc
    · rw [h]
      exact ⟨_, rfl⟩
  · next heq => exact absurd (eq_of_skipSpace hs heq).1 (by decide)
  · next hne _ => exact absurd hs (hne _)

theorem gives_items_last (h : Gives (readValue s) r t) (ht : skipSpace t = ']' :: rest) :
    Gives (readItems s) [r] rest := by
  obtain ⟨hlt, h⟩ := h
  rw [readItems, h]
  dsimp only [Option.bind_eq_bind, Option.bind_some]
  split
  · next heq => exact absurd (eq_of_skipSpace ht heq).1 (by decide)
  · next heq =>
    obtain ⟨-, rfl⟩ := eq_of_skipSpace ht heq
    exact gives_taken? ((length_lt_of_skipSpace ht).trans hlt)
  · next hne => exact absurd ht (hne _)

theorem gives_items_more (h : Gives (readValue s) r (',' :: t))
    (hrs : Gives (readItems t) rs rest) : Gives (readItems s) (r :: rs) rest := by
  have hcomma : skipSpace (',' :: t) = ',' :: t := skipSpace_of_not rfl
  obtain ⟨hlt, h⟩ := h
  obtain ⟨hlt', hrs⟩ := hrs
  rw [readItems, h]
  dsimp only [Option.bind_eq_bind, Option.bind_some]
  split
  · next heq =>
    obtain ⟨-, rfl⟩ := eq_of_skipSpace hcomma heq
    rw [hrs]
    exact ⟨_, rfl⟩
  · next heq => exact absurd (eq_of_skipSpace hcomma heq).1 (by decide)
  · next hne _ => exact absurd hcomma (hne _)

theorem gives_name (hname : ∀ p ∈ name, p.Fits) (hw : Run isSpace w) (rest : List Char) :
    Gives (readName (w ++ (writeString name ++ ':' :: rest))) (name.map Piece.respelled) rest := by
  have htext : writeString name ++ ':' :: rest =
      '"' :: (name.flatMap Piece.write ++ '"' :: ':' :: rest) := by
    rw [writeString, List.cons_append, List.append_assoc]
    rfl
  have hquote := skipSpace_blanks (c := '"') hw rfl (name.flatMap Piece.write ++ '"' :: ':' :: rest)
  have hcolon : skipSpace (':' :: rest) = ':' :: rest := skipSpace_of_not rfl
  rw [readName, htext, hquote]
  simp only [readPieces_append hname, Option.bind_eq_bind, Option.bind_some, hcolon]
  exact gives_taken? (by simp; omega)

theorem gives_object_nil (hs : skipSpace s = '\x7b' :: t) (ht : skipSpace t = '\x7d' :: rest) :
    Gives (readValue s) (.object []) rest := by
  rw [readValue]
  split
  · next heq => exact absurd (eq_of_skipSpace hs heq).1 (by decide)
  · next heq =>
    obtain ⟨-, rfl⟩ := eq_of_skipSpace hs heq
    rw [ht]
    exact gives_taken? ((length_lt_of_skipSpace ht).trans (length_lt_of_skipSpace hs))
  · next hne => exact absurd hs (hne _)

theorem gives_object (hs : skipSpace s = '\x7b' :: t) (ht : Opens t)
    (h : Gives (readMembers t) ms rest) : Gives (readValue s) (.object ms) rest := by
  obtain ⟨hlt, h⟩ := h
  rw [readValue]
  split
  · next heq => exact absurd (eq_of_skipSpace hs heq).1 (by decide)
  · next heq =>
    obtain ⟨-, rfl⟩ := eq_of_skipSpace hs heq
    split
    · next heq =>
      obtain ⟨c, u, ht, -, hc⟩ := ht
      exact absurd (eq_of_skipSpace ht heq).1 hc
    · rw [h]
      exact ⟨_, rfl⟩
  · next hne => exact absurd hs (hne _)

theorem gives_members_last (hname : Gives (readName s) name t) (h : Gives (readValue t) r u)
    (hu : skipSpace u = '\x7d' :: rest) : Gives (readMembers s) [(name, r)] rest := by
  obtain ⟨hlt, hname⟩ := hname
  obtain ⟨hlt', h⟩ := h
  rw [readMembers, hname]
  dsimp only [Option.bind_eq_bind, Option.bind_some]
  rw [h]
  dsimp only [Option.bind_some]
  split
  · next heq => exact absurd (eq_of_skipSpace hu heq).1 (by decide)
  · next heq =>
    obtain ⟨-, rfl⟩ := eq_of_skipSpace hu heq
    exact gives_taken? (((length_lt_of_skipSpace hu).trans hlt').trans hlt)
  · next hne => exact absurd hu (hne _)

theorem gives_members_more (hname : Gives (readName s) name t)
    (h : Gives (readValue t) r (',' :: u)) (hms : Gives (readMembers u) ms rest) :
    Gives (readMembers s) ((name, r) :: ms) rest := by
  have hcomma : skipSpace (',' :: u) = ',' :: u := skipSpace_of_not rfl
  obtain ⟨hlt, hname⟩ := hname
  obtain ⟨hlt', h⟩ := h
  obtain ⟨hlt'', hms⟩ := hms
  rw [readMembers, hname]
  dsimp only [Option.bind_eq_bind, Option.bind_some]
  rw [h]
  dsimp only [Option.bind_some]
  split
  · next heq =>
    obtain ⟨-, rfl⟩ := eq_of_skipSpace hcomma heq
    rw [hms]
    exact ⟨_, rfl⟩
  · next heq => exact absurd (eq_of_skipSpace hcomma heq).1 (by decide)
  · next hne _ => exact absurd hcomma (hne _)

end Raw

end

/-! ## Values -/

namespace Raw

mutual

/-- The text with its numerals as the grammar has them, and code units of 16 bits. -/
def Grammatical : Raw → Prop
  | null | bool _ => True
  | number n => n.WellFormed ∧ n.Strict
  | string s => ∀ p ∈ s, p.Fits
  | array items => GrammaticalItems items
  | object members => GrammaticalMembers members

/-- All elements are grammatical. -/
def GrammaticalItems : List Raw → Prop
  | [] => True
  | r :: rest => r.Grammatical ∧ GrammaticalItems rest

/-- All members are grammatical. -/
def GrammaticalMembers : List (List Piece × Raw) → Prop
  | [] => True
  | (name, r) :: rest => (∀ p ∈ name, p.Fits) ∧ r.Grammatical ∧ GrammaticalMembers rest

end

theorem grammatical_text (s : String) : (text s).Grammatical := fits_chars s.toList

theorem grammaticalItems_iff {rs : List Raw} :
    GrammaticalItems rs ↔ ∀ r ∈ rs, r.Grammatical := by
  induction rs with
  | nil => exact iff_of_true trivial (List.forall_mem_nil _)
  | cons r rest ih => rw [GrammaticalItems, List.forall_mem_cons, ih]

theorem grammatical_ofMembers {members : List (String × Raw)}
    (h : ∀ m ∈ members, m.2.Grammatical) : (ofMembers members).Grammatical := by
  rw [ofMembers, Grammatical]
  induction members with
  | nil => trivial
  | cons m rest ih =>
    obtain ⟨hm, hrest⟩ := List.forall_mem_cons.1 h
    exact ⟨fits_chars m.1.toList, hm, ih hrest⟩

mutual

/-- The text with its strings spelled as they are read where it is written. -/
def respelled : Raw → Raw
  | null => null
  | bool b => bool b
  | number n => number n
  | string s => string (s.map Piece.respelled)
  | array items => array (respelledItems items)
  | object members => object (respelledMembers members)

/-- The elements, respelled. -/
def respelledItems : List Raw → List Raw
  | [] => []
  | r :: rest => r.respelled :: respelledItems rest

/-- The members, respelled. -/
def respelledMembers : List (List Piece × Raw) → List (List Piece × Raw)
  | [] => []
  | (name, r) :: rest => (name.map Piece.respelled, r.respelled) :: respelledMembers rest

end

/-- What is written for a value begins with neither a blank nor a closing bracket. -/
theorem exists_head_write {r : Raw} (h : r.Grammatical) (l : Layout) (depth : ℕ) :
    ∃ c s, r.write l depth = c :: s ∧ isSpace c = false ∧ c ≠ ']' ∧ c ≠ '\x7d' := by
  cases r with
  | null => exact ⟨_, _, rfl, by decide, by decide, by decide⟩
  | bool b => cases b <;> exact ⟨_, _, rfl, by decide, by decide, by decide⟩
  | number n =>
    obtain ⟨c, s, hs, hc⟩ := h.1.exists_head
    exact ⟨c, s, hs, isSpace_of_begins hc, ne_of_begins hc rfl (by decide),
      ne_of_begins hc rfl (by decide)⟩
  | string s => exact ⟨_, _, rfl, by decide, by decide, by decide⟩
  | array items => cases items <;> exact ⟨_, _, rfl, by decide, by decide, by decide⟩
  | object members => cases members <;> exact ⟨_, _, rfl, by decide, by decide, by decide⟩

theorem gives_numeral {n : Numeral} (hn : n.WellFormed) (hstrict : n.Strict) {w rest : List Char}
    (hw : Run isSpace w) (hrest : Stops Numeral.goesOn rest) :
    Gives (readValue (w ++ (n.write ++ rest))) (number n) rest := by
  obtain ⟨c, s, hs, hc⟩ := hn.exists_head
  have hread := (hn.read_append hrest).1 hstrict
  rw [hs, List.cons_append] at hread ⊢
  refine gives_scalar (skipSpace_blanks hw (isSpace_of_begins hc) _)
    (ne_of_begins hc rfl (by decide)) (ne_of_begins hc rfl (by decide)) ?_ (by simp)
  rw [readScalar_numeral hc, hread]
  rfl

theorem gives_string {s : List Piece} (hs : ∀ p ∈ s, p.Fits) {w : List Char}
    (hw : Run isSpace w) (rest : List Char) :
    Gives (readValue (w ++ (writeString s ++ rest))) (string (s.map Piece.respelled)) rest := by
  have htext : writeString s ++ rest = '"' :: (s.flatMap Piece.write ++ '"' :: rest) := by
    rw [writeString, List.cons_append, List.append_assoc]
    rfl
  rw [htext]
  refine gives_scalar (skipSpace_blanks hw rfl _) (by decide) (by decide) ?_ (by simp; omega)
  rw [readScalar, readPieces_append hs]
  rfl

section

variable {l : Layout} (hl : l.Blank)
include hl

theorem opens_writeItems {depth : ℕ} {r : Raw} (h : r.Grammatical) (rs : List Raw) :
    Opens (commaSeparated (writeItems l depth (r :: rs))) := by
  obtain ⟨c, s, hs, hspace, harray, hobject⟩ := exists_head_write h l depth
  have hopens : Opens (l.line depth ++ r.write l depth) := by
    rw [hs]
    exact (opens_cons hspace harray hobject).blanks (hl.line depth)
  cases rs with
  | nil => exact hopens
  | cons r' rs => exact hopens.append _

theorem opens_writeMembers {depth : ℕ} (m : List Piece × Raw) (ms : List (List Piece × Raw)) :
    Opens (commaSeparated (writeMembers l depth (m :: ms))) := by
  have hname : Opens (l.line depth ++ writeString m.1) :=
    (opens_cons (by decide) (by decide) (by decide)).blanks (hl.line depth)
  have hopens := (hname.append (':' :: l.gap)).append (m.2.write l depth)
  cases ms with
  | nil => exact hopens
  | cons m' ms => exact hopens.append _

mutual

/-- What is written for a value is read back, behind any blanks and before anything with which a
numeral could not go on. -/
theorem gives_write : ∀ (depth : ℕ) {r : Raw}, r.Grammatical → ∀ {w rest : List Char},
    Run isSpace w → Stops Numeral.goesOn rest →
    Gives (readValue (w ++ (r.write l depth ++ rest))) r.respelled rest
  | _, null, _, w, rest, hw, _ =>
    gives_scalar (skipSpace_blanks hw rfl _) (by decide) (by decide) rfl (by simp; omega)
  | _, bool true, _, w, rest, hw, _ =>
    gives_scalar (skipSpace_blanks hw rfl _) (by decide) (by decide) rfl (by simp; omega)
  | _, bool false, _, w, rest, hw, _ =>
    gives_scalar (skipSpace_blanks hw rfl _) (by decide) (by decide) rfl (by simp; omega)
  | _, number n, h, w, rest, hw, hrest => gives_numeral h.1 h.2 hw hrest
  | _, string s, h, w, rest, hw, _ => gives_string h hw rest
  | _, array [], _, w, rest, hw, _ =>
    gives_array_nil (skipSpace_blanks hw rfl _) (skipSpace_of_not rfl)
  | depth, array (r :: rs), h, w, rest, hw, _ => by
    have htext : (array (r :: rs)).write l depth ++ rest =
        '[' :: (commaSeparated (writeItems l (depth + 1) (r :: rs)) ++
          (l.line depth ++ (']' :: rest))) := by
      simp [write]
    have hitems := gives_writeItems (depth + 1) h (List.cons_ne_nil r rs) (hl.line depth) rest
    rw [htext]
    exact gives_array (skipSpace_blanks hw rfl _) ((opens_writeItems hl h.1 rs).append _) hitems
  | _, object [], _, w, rest, hw, _ =>
    gives_object_nil (skipSpace_blanks hw rfl _) (skipSpace_of_not rfl)
  | depth, object (m :: ms), h, w, rest, hw, _ => by
    have htext : (object (m :: ms)).write l depth ++ rest =
        '\x7b' :: (commaSeparated (writeMembers l (depth + 1) (m :: ms)) ++
          (l.line depth ++ ('\x7d' :: rest))) := by
      simp [write]
    have hmembers := gives_writeMembers (depth + 1) h (List.cons_ne_nil m ms) (hl.line depth) rest
    rw [htext]
    exact gives_object (skipSpace_blanks hw rfl _) ((opens_writeMembers hl m ms).append _) hmembers

theorem gives_writeItems : ∀ (depth : ℕ) {rs : List Raw}, GrammaticalItems rs → rs ≠ [] →
    ∀ {w : List Char}, Run isSpace w → ∀ rest : List Char,
    Gives (readItems (commaSeparated (writeItems l depth rs) ++ (w ++ (']' :: rest))))
      (respelledItems rs) rest
  | _, [], _, hne, _, _, _ => absurd rfl hne
  | depth, [r], h, _, w, hw, rest => by
    have htext : commaSeparated (writeItems l depth [r]) ++ (w ++ (']' :: rest)) =
        l.line depth ++ (r.write l depth ++ (w ++ (']' :: rest))) := List.append_assoc _ _ _
    have hclose : Stops Numeral.goesOn (w ++ (']' :: rest)) := stops_blanks hw (stops_cons.2 rfl)
    rw [htext]
    exact gives_items_last (gives_write depth h.1 (hl.line depth) hclose)
      (skipSpace_blanks hw rfl rest)
  | depth, r :: r' :: rs, h, _, w, hw, rest => by
    generalize hmore : commaSeparated (writeItems l depth (r' :: rs)) ++ (w ++ (']' :: rest)) = more
    have htext : commaSeparated (writeItems l depth (r :: r' :: rs)) ++ (w ++ (']' :: rest)) =
        l.line depth ++ (r.write l depth ++ ',' :: more) := by
      rw [← hmore]
      simp [commaSeparated, writeItems]
    have hitems := gives_writeItems depth h.2 (List.cons_ne_nil r' rs) hw rest
    rw [hmore] at hitems
    rw [htext]
    exact gives_items_more (gives_write depth h.1 (hl.line depth) (stops_cons.2 rfl)) hitems

theorem gives_writeMembers : ∀ (depth : ℕ) {ms : List (List Piece × Raw)}, GrammaticalMembers ms →
    ms ≠ [] → ∀ {w : List Char}, Run isSpace w → ∀ rest : List Char,
    Gives (readMembers (commaSeparated (writeMembers l depth ms) ++ (w ++ ('\x7d' :: rest))))
      (respelledMembers ms) rest
  | _, [], _, hne, _, _, _ => absurd rfl hne
  | depth, [(name, r)], h, _, w, hw, rest => by
    have htext : commaSeparated (writeMembers l depth [(name, r)]) ++ (w ++ ('\x7d' :: rest)) =
        l.line depth ++ (writeString name ++
          ':' :: (l.gap ++ (r.write l depth ++ (w ++ ('\x7d' :: rest))))) := by
      simp [commaSeparated, writeMembers]
    have hclose : Stops Numeral.goesOn (w ++ ('\x7d' :: rest)) := stops_blanks hw (stops_cons.2 rfl)
    rw [htext]
    exact gives_members_last (gives_name h.1 (hl.line depth) _)
      (gives_write depth h.2.1 hl.gap hclose) (skipSpace_blanks hw rfl rest)
  | depth, (name, r) :: m' :: ms, h, _, w, hw, rest => by
    generalize hmore : commaSeparated (writeMembers l depth (m' :: ms)) ++ (w ++ ('\x7d' :: rest)) =
      more
    have htext : commaSeparated (writeMembers l depth ((name, r) :: m' :: ms)) ++
        (w ++ ('\x7d' :: rest)) =
        l.line depth ++ (writeString name ++
          ':' :: (l.gap ++ (r.write l depth ++ ',' :: more))) := by
      rw [← hmore]
      simp [commaSeparated, writeMembers]
    have hmembers := gives_writeMembers depth h.2.2 (List.cons_ne_nil m' ms) hw rest
    rw [hmore] at hmembers
    rw [htext]
    exact gives_members_more (gives_name h.1 (hl.line depth) _)
      (gives_write depth h.2.1 hl.gap (stops_cons.2 rfl)) hmembers

end

/-- **A written text is read back**, up to the spelling of its strings. -/
theorem read_write {r : Raw} (h : r.Grammatical) (depth : ℕ) :
    read (r.write l depth) = some r.respelled := by
  have hread := gives_write hl depth h (w := []) nofun stops_nil
  rw [List.nil_append, List.append_nil] at hread
  obtain ⟨_, hread⟩ := hread
  rw [read, hread]
  rfl

end

theorem read_compact {r : Raw} (h : r.Grammatical) : read r.compact = some r.respelled :=
  read_write Layout.blank_compact h 0

theorem read_pretty {r : Raw} (h : r.Grammatical) : read r.pretty = some r.respelled :=
  read_write Layout.blank_pretty h 0

end Raw

end RecordFilter.Json

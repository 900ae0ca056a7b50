import RecordFilter.Json.Fields
import RecordFilter.Proofs.Json.Layout

/-!
# The spelling of strings does not matter

A document is the same however the control characters of its strings are spelled
(`ofRaw_respelled`), and so are the parts that the readers of known fields take from it. What is
written as an object with known fields is taken apart into these fields again
(`pairFields_ofMembers`).
-/

namespace RecordFilter.Json

open Raw

/-! ## Documents -/

mutual

/-- **A document does not depend on the spelling of its strings.** -/
theorem ofRaw_respelled : ∀ (depth : ℕ) (r : Raw), ofRaw depth r.respelled = ofRaw depth r
  | _, .null | _, .bool _ | _, .number _ => rfl
  | _, .string s => by rw [respelled, ofRaw, ofRaw, decodeString_respelled]
  | depth, .array items => by
    rw [respelled, ofRaw, ofRaw, ofRawItems_respelled (depth - 1) items]
  | depth, .object members => by
    rw [respelled, ofRaw, ofRaw, ofRawMembers_respelled (depth - 1) members]

theorem ofRawItems_respelled : ∀ (depth : ℕ) (rs : List Raw),
    ofRawItems depth (respelledItems rs) = ofRawItems depth rs
  | _, [] => rfl
  | depth, r :: rest => by
    rw [respelledItems, ofRawItems, ofRawItems, ofRaw_respelled depth r,
      ofRawItems_respelled depth rest]

theorem ofRawMembers_respelled : ∀ (depth : ℕ) (ms : List (List Piece × Raw)),
    ofRawMembers depth (respelledMembers ms) = ofRawMembers depth ms
  | _, [] => rfl
  | depth, (name, r) :: rest => by
    rw [respelledMembers, ofRawMembers, ofRawMembers, decodeString_respelled,
      ofRaw_respelled depth r, ofRawMembers_respelled depth rest]

end

/-! ## Known fields -/

theorem respelledItems_eq (rs : List Raw) : respelledItems rs = rs.map respelled := by
  induction rs with
  | nil => rfl
  | cons r rest ih => rw [respelledItems, List.map_cons, ih]

theorem stringOf?_respelled (r : Raw) : stringOf? r.respelled = stringOf? r := by
  cases r with
  | string s => exact decodeString_respelled s
  | _ => rfl

theorem boolOf?_respelled (r : Raw) : boolOf? r.respelled = boolOf? r := by
  cases r <;> rfl

theorem integerOf?_respelled (r : Raw) : integerOf? r.respelled = integerOf? r := by
  cases r <;> rfl

/-- The elements of a list are read as they would be without the other spelling. -/
theorem listOf?_respelled {α : Type} {read : Raw → Option α} (h : ∀ r, read r.respelled = read r)
    (r : Raw) : listOf? read r.respelled = listOf? read r := by
  cases r with
  | array items =>
    have hread : read ∘ respelled = read := funext h
    rw [respelled, listOf?, listOf?, respelledItems_eq, List.mapM_map, hread]
  | _ => rfl

theorem alternative_respelled (r : Raw) :
    alternative r.respelled = (alternative r).map (Prod.map id (Option.map respelled)) := by
  cases r with
  | string s =>
    rw [respelled, alternative, alternative, decodeString_respelled, Option.map_map]
    rfl
  | object ms =>
    match ms with
    | [(name, r)] =>
      simp only [respelled, respelledMembers, alternative, decodeString_respelled, Option.map_map]
      rfl
    | [] => rfl
    | _ :: _ :: _ => rfl
  | _ => rfl

theorem namedMembers_cons (name : List Piece) (r : Raw) (rest : List (List Piece × Raw)) :
    namedMembers ((name, r) :: rest) =
      (decodeString name).bind fun name => (namedMembers rest).map ((name, r) :: ·) := by
  unfold namedMembers
  rw [List.mapM_cons]
  generalize (List.mapM _ rest : Option (List (String × Raw))) = named
  dsimp only
  cases decodeString name with
  | none => rfl
  | some name => cases named <;> rfl

theorem namedMembers_respelled (ms : List (List Piece × Raw)) :
    namedMembers (respelledMembers ms) =
      (namedMembers ms).map (List.map (Prod.map id respelled)) := by
  induction ms with
  | nil => rfl
  | cons m rest ih =>
    obtain ⟨name, r⟩ := m
    rw [respelledMembers, namedMembers_cons, namedMembers_cons, ih, decodeString_respelled]
    cases decodeString name with
    | none => rfl
    | some name =>
      cases namedMembers rest <;> rfl

/-- The texts of known fields come back respelled. -/
theorem fields_respelled (names : List String) (r : Raw) :
    fields names r.respelled = (fields names r).map (List.map (Option.map respelled)) := by
  cases r with
  | array items =>
    simp only [respelled, fields, respelledItems_eq, List.length_map]
    split <;> simp
  | object ms =>
    simp only [respelled, fields, namedMembers_respelled]
    cases namedMembers ms with
    | none => rfl
    | some named =>
      simp only [Option.map_some, Option.bind_eq_bind, Option.bind_some, List.countP_map,
        List.find?_map, Function.comp_def, Prod.map_fst, id_eq, Option.map_map]
      split
      · rfl
      · simp [Function.comp_def]
  | _ => rfl

theorem pairFields_respelled (first second : String) (r : Raw) :
    pairFields first second r.respelled =
      (pairFields first second r).map (Prod.map respelled respelled) := by
  unfold pairFields
  rw [fields_respelled]
  cases fields [first, second] r with
  | none => rfl
  | some rs =>
    rcases rs with _ | ⟨_ | a, _ | ⟨_ | b, _ | ⟨c, rs⟩⟩⟩ <;> rfl

/-! ## Written fields -/

theorem stringOf?_text (s : String) : stringOf? (.text s) = some s := decodeString_chars s

/-- An object with one member is an alternative. -/
theorem alternative_ofMembers (name : String) (r : Raw) :
    alternative (.ofMembers [(name, r)]) = some (name, some r) := by
  rw [Raw.ofMembers, List.map_cons, List.map_nil, alternative, decodeString_chars]
  rfl

/-- The two fields of a pair are found by their names. -/
theorem pairFields_ofMembers {first second : String} (hne : first ≠ second) (a b : Raw) :
    pairFields first second (.ofMembers [(first, a), (second, b)]) = some (a, b) := by
  have hnamed : namedMembers [(first.toList.map .char, a), (second.toList.map .char, b)] =
      some [(first, a), (second, b)] := by
    rw [namedMembers_cons, namedMembers_cons, decodeString_chars, decodeString_chars]
    rfl
  have hfields : fields [first, second] (.ofMembers [(first, a), (second, b)]) =
      some [some a, some b] := by
    simp only [Raw.ofMembers, List.map_cons, List.map_nil, fields, hnamed]
    simp [hne, hne.symm]
  rw [pairFields, hfields]

end RecordFilter.Json

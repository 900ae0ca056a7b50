import RecordFilter.Json.Raw
import RecordFilter.Text.Taken

/-!
# Reading JSON texts

The grammar of JSON, strictly: no blanks but the four of the grammar, no leading zeros, no control
characters inside strings, nothing behind the value. The three readers of nested values call each
other on a text that gets shorter at every step.
-/

namespace RecordFilter.Json

open Text

/-- The blanks of the grammar. -/
def isSpace (c : Char) : Bool := c == ' ' || c == '\t' || c == '\n' || c == '\r'

/-- The text from its first character that is no blank. -/
def skipSpace (s : List Char) : List Char := s.dropWhile isSpace

theorem skipSpace_length_le (s : List Char) : (skipSpace s).length ≤ s.length :=
  (List.dropWhile_sublist _).length_le

/-! ## Numerals -/

/-- The digits before the point: a single zero, or digits of which the first is no zero. -/
def wholePart (s : List Char) : Option (List Char × List Char) :=
  match spanDigits s with
  | ([], _) => none
  | ('0' :: _ :: _, _) => none
  | (ds, rest) => some (ds, rest)

/-- A point and at least one digit; no places without a point. -/
def placesPart : List Char → Option (List Char × List Char)
  | '.' :: s =>
    let (ds, rest) := spanDigits s
    if ds.isEmpty then none else some (ds, rest)
  | s => some ([], s)

/-- An exponent with an optional sign and at least one digit, or no exponent. -/
def exponentPart : List Char → Option (Option (Bool × List Char) × List Char)
  | [] => some (none, [])
  | c :: s =>
    if c = 'e' ∨ c = 'E' then
      let (negative, s) := spanSign s
      let (ds, rest) := spanDigits s
      if ds.isEmpty then none else some (some (negative, ds), rest)
    else some (none, c :: s)

/-- The numeral at the head of a text. -/
def Numeral.read (s : List Char) : Option (Numeral × List Char) := do
  let (negative, s) := match s with
    | '-' :: s => (true, s)
    | s => (false, s)
  let (whole, s) ← wholePart s
  let (places, s) ← placesPart s
  let (exponent, s) ← exponentPart s
  some (⟨negative, whole, places, exponent⟩, s)

/-! ## Strings -/

/-- The value of a hexadecimal digit. -/
def hexValue? (c : Char) : Option Nat :=
  if '0' ≤ c ∧ c ≤ '9' then some (c.toNat - '0'.toNat)
  else if 'a' ≤ c ∧ c ≤ 'f' then some (c.toNat - 'a'.toNat + 10)
  else if 'A' ≤ c ∧ c ≤ 'F' then some (c.toNat - 'A'.toNat + 10)
  else none

/-- A code unit of four hexadecimal digits. -/
def unitOf? (a b c d : Char) : Option Nat := do
  let a ← hexValue? a
  let b ← hexValue? b
  let c ← hexValue? c
  let d ← hexValue? d
  some (((a * 16 + b) * 16 + c) * 16 + d)

/-- The character that a backslash and this letter stand for. -/
def escaped? (c : Char) : Option Char :=
  if c = '"' ∨ c = '\\' ∨ c = '/' then some c
  else if c = 'b' then some '\x08'
  else if c = 'f' then some '\x0c'
  else if c = 'n' then some '\n'
  else if c = 'r' then some '\r'
  else if c = 't' then some '\t'
  else none

/-- The elements of a string up to its closing quote, and the text behind the quote. -/
def readPieces : List Char → Option (List Piece × List Char)
  | [] => none
  | '"' :: s => some ([], s)
  | '\\' :: 'u' :: a :: b :: c :: d :: s => do
    let n ← unitOf? a b c d
    let (pieces, rest) ← readPieces s
    some (.unit n :: pieces, rest)
  | '\\' :: c :: s => do
    let c ← escaped? c
    let (pieces, rest) ← readPieces s
    some (.char c :: pieces, rest)
  | c :: s =>
    if c.toNat < 0x20 ∨ c = '\\' then none
    else do
      let (pieces, rest) ← readPieces s
      some (.char c :: pieces, rest)

/-! ## Values -/

/-- What was read, provided that it took something from the text. -/
def taken? {α : Type} (s : List Char) (r : α × List Char) : Option (Taken α s) :=
  if h : r.2.length < s.length then some ⟨r.1, r.2, h⟩ else none

/-- The name of a member and its colon. -/
def readName (s : List Char) : Option (Taken (List Piece) s) := do
  match skipSpace s with
  | '"' :: rest =>
    let (pieces, rest) ← readPieces rest
    match skipSpace rest with
    | ':' :: rest => taken? s (pieces, rest)
    | _ => none
  | _ => none

/-- A value that has no values inside. -/
def readScalar (s : List Char) : Option (Raw × List Char) :=
  match s with
  | 'n' :: 'u' :: 'l' :: 'l' :: rest => some (.null, rest)
  | 't' :: 'r' :: 'u' :: 'e' :: rest => some (.bool true, rest)
  | 'f' :: 'a' :: 'l' :: 's' :: 'e' :: rest => some (.bool false, rest)
  | '"' :: rest => (readPieces rest).map fun (pieces, rest) => (.string pieces, rest)
  | s => (Numeral.read s).map fun (n, rest) => (.number n, rest)

namespace Raw

mutual

/-- The value at the head of a text, after blanks. -/
def readValue (s : List Char) : Option (Taken Raw s) :=
  match h : skipSpace s with
  | '[' :: rest =>
    have hs : rest.length < s.length := by
      have := skipSpace_length_le s; rw [h] at this; exact this
    match skipSpace rest with
    | ']' :: after => taken? s (.array [], after)
    | _ => (readItems rest).map fun t => (t.map .array).after (Nat.le_of_lt hs)
  | '{' :: rest =>
    have hs : rest.length < s.length := by
      have := skipSpace_length_le s; rw [h] at this; exact this
    match skipSpace rest with
    | '}' :: after => taken? s (.object [], after)
    | _ => (readMembers rest).map fun t => (t.map .object).after (Nat.le_of_lt hs)
  | text => (readScalar text).bind (taken? s)
termination_by (s.length, 0)

/-- The elements of an array up to its closing bracket. -/
def readItems (s : List Char) : Option (Taken (List Raw) s) := do
  let ⟨item, rest, _⟩ ← readValue s
  match h : skipSpace rest with
  | ',' :: more =>
    have : more.length < rest.length := by
      have := skipSpace_length_le rest; rw [h] at this; exact this
    let t ← readItems more
    some ((t.map (item :: ·)).after (by omega))
  | ']' :: after => taken? s ([item], after)
  | _ => none
termination_by (s.length, 1)

/-- The members of an object up to its closing brace. -/
def readMembers (s : List Char) : Option (Taken (List (List Piece × Raw)) s) := do
  let ⟨name, text, _⟩ ← readName s
  let ⟨value, rest, _⟩ ← readValue text
  match h : skipSpace rest with
  | ',' :: more =>
    have : more.length < rest.length := by
      have := skipSpace_length_le rest; rw [h] at this; exact this
    let t ← readMembers more
    some ((t.map ((name, value) :: ·)).after (by omega))
  | '}' :: after => taken? s ([(name, value)], after)
  | _ => none
termination_by (s.length, 1)

end

/-- A text that is one JSON value, with blanks around it. -/
def read (s : List Char) : Option Raw := do
  let t ← readValue s
  if (skipSpace t.rest).isEmpty then some t.value else none

end Raw

end RecordFilter.Json

import RecordFilter.Text.Digits

/-!
# JSON texts taken apart

A `Raw` is a JSON text without its layout: numerals as digits, strings as characters and 16 bit
code units, members in the order in which they stand, repeated names included. Nothing is
interpreted yet, so a numeral too large for a number and half a surrogate pair are still there;
what a reader of the text skips never has to make sense.

A `Raw` is written in a layout, on one line (`compact`) or over several lines (`pretty`).
-/

namespace RecordFilter.Json

open Text

/-- A numeral: digits before the point, digits behind it (none without a point), and the digits
of an exponent with its sign, `true` for a minus. -/
structure Numeral where
  negative : Bool
  whole : List Char
  places : List Char
  exponent : Option (Bool × List Char)
  deriving DecidableEq, Repr

/-- An element of a string: a character, or a code unit written as `\u` and four digits. -/
inductive Piece where
  | char (c : Char)
  | unit (n : Nat)
  deriving DecidableEq, Repr

/-- A JSON text. -/
inductive Raw where
  | null
  | bool (b : Bool)
  | number (n : Numeral)
  | string (s : List Piece)
  | array (items : List Raw)
  | object (members : List (List Piece × Raw))

/-! ## Writing -/

/-- The written form: a point only before places, and the sign of an exponent always. -/
def Numeral.write (n : Numeral) : List Char :=
  (if n.negative then ['-'] else []) ++ n.whole ++
    (if n.places.isEmpty then [] else '.' :: n.places) ++
    match n.exponent with
    | none => []
    | some (negative, ds) => 'e' :: (if negative then '-' else '+') :: ds

/-- A code unit as four hexadecimal digits in lower case. -/
def writeUnit (n : Nat) : List Char :=
  [n / 4096 % 16, n / 256 % 16, n / 16 % 16, n % 16].map Nat.digitChar

/-- A character of a string: quotes, backslashes and control characters are escaped. -/
def writeChar (c : Char) : List Char :=
  if c = '"' then ['\\', '"']
  else if c = '\\' then ['\\', '\\']
  else if c = '\n' then ['\\', 'n']
  else if c = '\r' then ['\\', 'r']
  else if c = '\t' then ['\\', 't']
  else if c = '\x08' then ['\\', 'b']
  else if c = '\x0c' then ['\\', 'f']
  else if c.toNat < 0x20 then '\\' :: 'u' :: writeUnit c.toNat
  else [c]

/-- An element of a string. -/
def Piece.write : Piece → List Char
  | char c => writeChar c
  | unit n => '\\' :: 'u' :: writeUnit n

/-- A string with its quotes. -/
def writeString (s : List Piece) : List Char := '"' :: (s.flatMap Piece.write ++ ['"'])

/-- Texts with commas between them. -/
def commaSeparated : List (List Char) → List Char
  | [] => []
  | [s] => s
  | s :: rest => s ++ ',' :: commaSeparated rest

/-- The blanks of a text: before each element and member of a given depth and before the bracket
that closes them, and behind the colon of a member. -/
structure Layout where
  line : Nat → List Char
  gap : List Char

namespace Layout

/-- Everything on one line, without blanks. -/
def compact : Layout where
  line _ := []
  gap := []

/-- Each element and member on a line of its own, two blanks further in for each level. -/
def pretty : Layout where
  line depth := '\n' :: List.replicate (2 * depth) ' '
  gap := [' ']

end Layout

namespace Raw

mutual

/-- The text in a layout; an empty array or object stays together. -/
def write (l : Layout) (depth : Nat) : Raw → List Char
  | null => "null".toList
  | bool b => (if b then "true" else "false").toList
  | number n => n.write
  | string s => writeString s
  | array [] => ['[', ']']
  | array items =>
    '[' :: (commaSeparated (writeItems l (depth + 1) items) ++ l.line depth ++ [']'])
  | object [] => ['{', '}']
  | object members =>
    '{' :: (commaSeparated (writeMembers l (depth + 1) members) ++ l.line depth ++ ['}'])

/-- Each element with the blanks before it. -/
def writeItems (l : Layout) (depth : Nat) : List Raw → List (List Char)
  | [] => []
  | r :: rest => (l.line depth ++ r.write l depth) :: writeItems l depth rest

/-- Each member with the blanks before it. -/
def writeMembers (l : Layout) (depth : Nat) : List (List Piece × Raw) → List (List Char)
  | [] => []
  | (name, r) :: rest =>
    (l.line depth ++ writeString name ++ ':' :: l.gap ++ r.write l depth) ::
      writeMembers l depth rest

end

/-- The text on one line. -/
def compact (r : Raw) : List Char := r.write .compact 0

/-- The text over several lines. -/
def pretty (r : Raw) : List Char := r.write .pretty 0

/-! ## Building -/

/-- A text as a string of characters. -/
def text (s : String) : Raw := string (s.toList.map .char)

/-- An object with the given members. -/
def ofMembers (members : List (String × Raw)) : Raw :=
  object (members.map fun (name, r) => (name.toList.map .char, r))

/-- A number that is not negative. -/
def nat (n : Nat) : Raw := number ⟨false, digits n, [], none⟩

end Raw

/-! ## Strings -/

/-- The character of a pair of surrogates. -/
def surrogatePair (high low : Nat) : Char :=
  Char.ofNat (0x10000 + (high - 0xD800) * 0x400 + (low - 0xDC00))

/-- The text of a string; `none` if it has half a surrogate pair. -/
def decode : List Piece → Option (List Char)
  | [] => some []
  | .char c :: rest => (decode rest).map (c :: ·)
  | .unit n :: rest =>
    if n < 0xD800 ∨ 0xDFFF < n then (decode rest).map (Char.ofNat n :: ·)
    else match rest with
      | .unit low :: rest =>
        if n < 0xDC00 ∧ 0xDC00 ≤ low ∧ low ≤ 0xDFFF then
          (decode rest).map (surrogatePair n low :: ·)
        else none
      | _ => none

/-- The text of a string. -/
def decodeString (s : List Piece) : Option String := (decode s).map String.ofList

end RecordFilter.Json

import RecordFilter.Json.Number
import RecordFilter.Json.Raw.Reader

/-!
# JSON documents

A document with its strings and numbers read. The members of an object are kept in the order of
their names, and of members with one name the last one counts.

Arrays and objects may be nested 127 deep. The depth that is left is counted down by the
interpretation, not by the grammar: a part that nobody interprets may be deeper.
-/

namespace RecordFilter

/-- A JSON document. -/
inductive Json where
  | null
  | bool (b : Bool)
  | number (n : Json.Number)
  | string (s : String)
  | array (items : List Json)
  | object (members : List (String × Json))

namespace Json

/-! ## Members -/

/-- The members with one put in, in the order of names; it takes the place of one with its
name. -/
def insertMember {α : Type} (name : String) (value : α) :
    List (String × α) → List (String × α)
  | [] => [(name, value)]
  | (other, v) :: rest =>
    if name < other then (name, value) :: (other, v) :: rest
    else if name = other then (name, value) :: rest
    else (other, v) :: insertMember name value rest

/-- The members of an object, each put in after those before it. -/
def ofMembers (members : List (String × Json)) : Json :=
  object (members.foldl (fun done (name, value) => insertMember name value done) [])

/-! ## Reading -/

/-- How deep arrays and objects may be nested. -/
def maxDepth : Nat := 127

mutual

/-- The document of a text, which may have `depth` levels of arrays and objects. -/
def ofRaw (depth : Nat) : Raw → Option Json
  | .null => some null
  | .bool b => some (bool b)
  | .number n => (Number.ofNumeral n).map number
  | .string s => (decodeString s).map string
  | .array items =>
    if depth = 0 then none else (ofRawItems (depth - 1) items).map array
  | .object members =>
    if depth = 0 then none else (ofRawMembers (depth - 1) members).map ofMembers

/-- The elements of an array. -/
def ofRawItems (depth : Nat) : List Raw → Option (List Json)
  | [] => some []
  | r :: rest => do
    let item ← ofRaw depth r
    let items ← ofRawItems depth rest
    some (item :: items)

/-- The members of an object, in the order of the text. -/
def ofRawMembers (depth : Nat) : List (List Piece × Raw) → Option (List (String × Json))
  | [] => some []
  | (name, r) :: rest => do
    let name ← decodeString name
    let value ← ofRaw depth r
    let members ← ofRawMembers depth rest
    some ((name, value) :: members)

end

/-- The document of a text. -/
def read (s : List Char) : Option Json := (Raw.read s).bind (ofRaw maxDepth)

/-! ## Writing -/

mutual

/-- The text of a document. -/
def toRaw : Json → Raw
  | null => .null
  | bool b => .bool b
  | number n => n.toRaw
  | string s => .text s
  | array items => .array (toRawItems items)
  | object members => .object (toRawMembers members)

/-- The texts of elements. -/
def toRawItems : List Json → List Raw
  | [] => []
  | j :: rest => j.toRaw :: toRawItems rest

/-- The texts of members. -/
def toRawMembers : List (String × Json) → List (List Piece × Raw)
  | [] => []
  | (name, j) :: rest => (name.toList.map .char, j.toRaw) :: toRawMembers rest

end

/-- The document on one line. -/
def write (j : Json) : List Char := j.toRaw.compact

/-! ## Views -/

/-- The member of an object with a given name. -/
def member? (name : String) (members : List (String × Json)) : Option Json :=
  (members.find? (·.1 = name)).map (·.2)

mutual

/-- Equal as documents: same structure, numbers equal as JSON numbers. -/
def same : Json → Json → Bool
  | null, null => true
  | bool a, bool b => a == b
  | number a, number b => a.same b
  | string a, string b => a == b
  | array a, array b => sameItems a b
  | object a, object b => sameMembers a b
  | _, _ => false

/-- Elements equal one by one. -/
def sameItems : List Json → List Json → Bool
  | [], [] => true
  | a :: as, b :: bs => a.same b && sameItems as bs
  | _, _ => false

/-- Members equal one by one, names and values. -/
def sameMembers : List (String × Json) → List (String × Json) → Bool
  | [], [] => true
  | (m, a) :: as, (n, b) :: bs => m == n && a.same b && sameMembers as bs
  | _, _ => false

end

end Json

end RecordFilter

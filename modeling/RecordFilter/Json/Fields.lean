import RecordFilter.Json.Number

/-!
# Documents with known fields

Reading of JSON texts whose objects have a fixed list of fields. Such an object may also be
written as an array of its fields in their order, from which the last ones may be missing. Members
that are no known field are skipped without being interpreted; a known field that is given twice
is an error.
-/

namespace RecordFilter.Json

/-- The members of an object with their names read. -/
def namedMembers (members : List (List Piece × Raw)) : Option (List (String × Raw)) :=
  members.mapM fun (name, r) => (decodeString name).map fun name => (name, r)

/-- The texts of the fields with these names, in the order of the names. -/
def fields (names : List String) : Raw → Option (List (Option Raw))
  | .object members => do
    let named ← namedMembers members
    if names.any fun name => 1 < named.countP (·.1 = name) then none
    else some (names.map fun name => (named.find? (·.1 = name)).map (·.2))
  | .array items =>
    if items.length ≤ names.length then
      some (items.map some ++ List.replicate (names.length - items.length) none)
    else none
  | _ => none

/-- The fields of a pair, both of which have to be there. -/
def pairFields (first second : String) (r : Raw) : Option (Raw × Raw) :=
  match fields [first, second] r with
  | some [some a, some b] => some (a, b)
  | _ => none

/-- A string. -/
def stringOf? : Raw → Option String
  | .string s => decodeString s
  | _ => none

/-- A truth value. -/
def boolOf? : Raw → Option Bool
  | .bool b => some b
  | _ => none

/-- An integer that a numeral stands for. -/
def integerOf? : Raw → Option Int
  | .number n =>
    match Number.ofNumeral n with
    | some (.integer n) => some n
    | _ => none
  | _ => none

/-- An integer that is not negative. -/
def natOf? (r : Raw) : Option Nat :=
  (integerOf? r).bind fun n => if 0 ≤ n then some n.toNat else none

/-- An array whose elements are read one by one. -/
def listOf? {α : Type} (read : Raw → Option α) : Raw → Option (List α)
  | .array items => items.mapM read
  | _ => none

/-- A missing field is the default; a field that is there has to be readable. -/
def orDefault {α : Type} (default : α) (read : Raw → Option α) : Option Raw → Option α
  | none => some default
  | some r => read r

/-- One of several alternatives: its name, and what comes with it unless the name stands alone. -/
def alternative : Raw → Option (String × Option Raw)
  | .string s => (decodeString s).map fun name => (name, none)
  | .object [(name, r)] => (decodeString name).map fun name => (name, some r)
  | _ => none

/-- An alternative with nothing beside its name. -/
def bareAlternative (r : Raw) : Option String :=
  match alternative r with
  | some (name, none) => some name
  | some (name, some .null) => some name
  | _ => none

end RecordFilter.Json

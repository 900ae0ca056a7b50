import RecordFilter.Text.Letters

/-!
# Comparators

The comparators of the filter language and their spellings. Each has one spelling under which it
is shown; the others are read alike, and so is every letter case.
-/

namespace RecordFilter.Filter

open Text

/-- A comparator. -/
inductive Comparator where
  | eq
  | neq
  | lt
  | le
  | gt
  | ge
  | isNull
  | notNull
  | isTrue
  | isFalse
  | like
  | within
  | without
  deriving DecidableEq, Repr

namespace Comparator

/-- All comparators. -/
def all : List Comparator :=
  [eq, neq, lt, le, gt, ge, isNull, notNull, isTrue, isFalse, like, within, without]

/-- The spelling under which a comparator is shown. -/
def spelling : Comparator → String
  | eq => "=="
  | neq => "!="
  | lt => "<"
  | le => "<="
  | gt => ">"
  | ge => ">="
  | isNull => "=isnull="
  | notNull => "=isnotnull="
  | isTrue => "=istrue="
  | isFalse => "=isfalse="
  | like => "=lk="
  | within => "=in="
  | without => "=out="

/-- The other spellings of a comparator. -/
def otherSpellings : Comparator → List String
  | eq => ["=eq="]
  | neq => ["=neq=", "=ne="]
  | lt => ["=lt="]
  | le => ["=le="]
  | gt => ["=gt="]
  | ge => ["=ge="]
  | notNull => ["=notnull="]
  | like => ["=like="]
  | _ => []

/-- The name of a comparator in a JSON document. -/
def name : Comparator → String
  | eq => "eq"
  | neq => "neq"
  | lt => "lt"
  | le => "le"
  | gt => "gt"
  | ge => "ge"
  | isNull => "is_null"
  | notNull => "not_null"
  | isTrue => "is_true"
  | isFalse => "is_false"
  | like => "like"
  | within => "in"
  | without => "out"

/-- The comparator that a token spells, in any letter case. -/
def ofToken? (token : String) : Option Comparator :=
  let word := lowerString token
  all.find? fun c => word = c.spelling ∨ word ∈ c.otherSpellings

end Comparator

end RecordFilter.Filter

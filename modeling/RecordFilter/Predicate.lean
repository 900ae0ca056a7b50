import RecordFilter.Like
import RecordFilter.Value.Order

/-!
# Predicates

Predicates over the properties of a record. They are evaluated against any assignment of values to
property names; an absent value is equal to nothing, less than nothing, like no pattern and within
no list.
-/

namespace RecordFilter

/-- How a value is compared with a constant. -/
inductive Relation where
  | eq
  | neq
  | lt
  | le
  | gt
  | ge
  deriving DecidableEq, Repr

/-- The name under which a relation is shown. -/
def Relation.name : Relation → String
  | eq => "Eq"
  | neq => "Neq"
  | lt => "Lt"
  | le => "Le"
  | gt => "Gt"
  | ge => "Ge"

/-- All relations. -/
def Relation.all : List Relation := [eq, neq, lt, le, gt, ge]

/-- The relation holds for values that compare in this way. -/
def Relation.admits : Relation → Option Ordering → Bool
  | eq, o => o == some .eq
  | neq, o => o != some .eq
  | lt, o => o == some .lt
  | le, o => o == some .lt || o == some .eq
  | gt, o => o == some .gt
  | ge, o => o == some .gt || o == some .eq

/-- A predicate over properties. -/
inductive Predicate where
  | const (b : Bool)
  | and (left right : Predicate)
  | or (left right : Predicate)
  | not (operand : Predicate)
  | compare (property : String) (relation : Relation) (value : Value)
  | isNull (property : String)
  | like (property : String) (pattern : Like)
  | within (property : String) (values : List Value)

namespace Predicate

/-- Whether the predicate is true of the given values of properties. -/
def evaluate (get : String → Value) : Predicate → Bool
  | const b => b
  | and l r => l.evaluate get && r.evaluate get
  | or l r => l.evaluate get || r.evaluate get
  | not p => !p.evaluate get
  | compare property relation value => relation.admits ((get property).compare value)
  | isNull property => (get property).isNull
  | like property pattern =>
    match (get property).toText? with
    | some s => pattern.accepts s.toList
    | none => false
  | within property values => values.any fun v => (get property).equal v

/-! ## Writing -/

/-- The name under which a place is shown. -/
def modeName : LikeMode → String
  | .beginning => "Prefix"
  | .ending => "Suffix"
  | .anywhere => "Contains"

/-- The written form of a predicate. -/
def write : Predicate → String
  | const b => if b then "true" else "false"
  | and l r => "(" ++ l.write ++ " AND " ++ r.write ++ ")"
  | or l r => "(" ++ l.write ++ " OR " ++ r.write ++ ")"
  | not p => "NOT " ++ p.write
  | compare property relation value => s!"{property} {relation.name} {value}"
  | isNull property => s!"{property} IS NULL"
  | like property pattern =>
    s!"{property} LIKE {modeName pattern.mode}({String.ofList pattern.literal})"
  | within property values =>
    property ++ " IN (" ++ String.intercalate ", " (values.map toString) ++ ")"

/-! ## Sameness -/

/-- Values that are the same one by one. -/
def sameValues : List Value → List Value → Bool
  | [], [] => true
  | a :: as, b :: bs => a.same b && sameValues as bs
  | _, _ => false

/-- The two predicates have one shape and the same parts. A predicate over a float that is no
number is not the same as itself. -/
def same : Predicate → Predicate → Bool
  | const a, const b => a == b
  | and a b, and c d => a.same c && b.same d
  | or a b, or c d => a.same c && b.same d
  | not a, not b => a.same b
  | compare p r v, compare q s w => p == q && r == s && v.same w
  | isNull p, isNull q => p == q
  | like p l, like q m => p == q && l == m
  | within p vs, within q ws => p == q && sameValues vs ws
  | _, _ => false

end Predicate

end RecordFilter

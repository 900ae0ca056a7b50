import RecordFilter.Text.Letters
import RecordFilter.Text.Uppercase

/-!
# Naming conventions

How the selector of a filter is turned into the name of a property. Under two of the conventions
property names begin with a capital and selectors do not, and under one of these the words of a
selector are joined by underscores.
-/

namespace RecordFilter

open Text

/-- A convention by which selectors are written. -/
inductive Naming where
  | asIs
  | camelCase
  | snakeCase
  deriving DecidableEq, Repr

namespace Naming

/-- The text with its first character in upper case. -/
def upperFirst : List Char → List Char
  | [] => []
  | c :: s => uppercase c ++ s

/-- The words between underscores, each with its first character in upper case, without the
underscores; `start` tells that a word begins here. -/
def joinWords (start : Bool) : List Char → List Char
  | [] => []
  | c :: s =>
    if c = '_' then joinWords true s
    else (if start then uppercase c else [c]) ++ joinWords false s

/-- The property name that a selector stands for. -/
def candidate : Naming → List Char → List Char
  | asIs, s => s
  | camelCase, s => upperFirst s
  | snakeCase, s => joinWords true s

/-- The property name that a selector stands for. -/
def propertyName (n : Naming) (selector : String) : String :=
  String.ofList (n.candidate selector.toList)

/-- The name of a convention. -/
def name : Naming → String
  | asIs => "as_is"
  | camelCase => "camel_case"
  | snakeCase => "snake_case"

/-- All conventions. -/
def all : List Naming := [asIs, camelCase, snakeCase]

/-- The convention with exactly this name. -/
def ofName? (s : String) : Option Naming := all.find? (·.name = s)

/-- The other words for a convention. -/
def otherWords : Naming → List String
  | asIs => ["asis"]
  | camelCase => ["camel", "camelcase"]
  | snakeCase => ["snake", "snakecase"]

/-- The convention that a word stands for, in any letter case and with `-` for `_`. -/
def ofWord? (s : String) : Option Naming :=
  let word := String.ofList ((lower s.toList).map fun c => if c = '-' then '_' else c)
  all.find? fun n => word = n.name ∨ word ∈ n.otherWords

/-- The message about a word that is no convention. -/
def unknownMessage (s : String) : String :=
  s!"Unknown naming convention: {s} (expected as_is, camel_case or snake_case)"

end Naming

end RecordFilter

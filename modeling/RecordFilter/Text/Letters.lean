/-!
# ASCII letters

Letter case is ignored in comparators, combinators and the names of settings. All of these are
ASCII, so only the letters of ASCII are lowered.
-/

namespace RecordFilter.Text

/-- The text with its ASCII letters in lower case. -/
def lower (s : List Char) : List Char := s.map Char.toLower

/-- The text with its ASCII letters in lower case. -/
def lowerString (s : String) : String := String.ofList (lower s.toList)

end RecordFilter.Text

/-!
# Splitting a text

A text is split behind the longest beginning whose characters have a property.
-/

namespace RecordFilter.Text

/-- The longest beginning whose characters all have a property, and the rest. -/
def splitWhile (p : Char → Bool) (s : List Char) : List Char × List Char :=
  (s.takeWhile p, s.dropWhile p)

theorem splitWhile_length (p : Char → Bool) (s : List Char) :
    (splitWhile p s).2.length ≤ s.length := (List.dropWhile_sublist p).length_le

end RecordFilter.Text

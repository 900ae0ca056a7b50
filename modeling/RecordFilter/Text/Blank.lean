/-!
# Blanks

The characters of the Unicode property `White_Space`, and the text that is left when they are
taken off both ends. The filter grammar has a narrower set of its own (`Filter/Lexeme`); this one
is for type names and timestamps.
-/

namespace RecordFilter.Text

/-- A character of the Unicode property `White_Space`. -/
def isBlank (c : Char) : Bool :=
  let n := c.toNat
  (0x09 ≤ n && n ≤ 0x0D) || n == 0x20 || n == 0x85 || n == 0xA0 || n == 0x1680 ||
    (0x2000 ≤ n && n ≤ 0x200A) || n == 0x2028 || n == 0x2029 || n == 0x202F || n == 0x205F ||
    n == 0x3000

/-- The text from its first character that is no blank. -/
def skipBlanks (s : List Char) : List Char := s.dropWhile isBlank

/-- The text without the blanks at both ends. -/
def trim (s : List Char) : List Char := (skipBlanks (skipBlanks s).reverse).reverse

end RecordFilter.Text

/-!
# Reading from the head of a text

A reader takes something from the head of a text and hands back the rest. `Taken` carries the
proof that the rest is shorter, which is what loops and nested readers end by.
-/

namespace RecordFilter.Text

/-- A value read from the head of `s`, and the rest of the text. -/
structure Taken (α : Type) (s : List Char) where
  value : α
  rest : List Char
  shorter : rest.length < s.length

namespace Taken

variable {α β : Type} {s : List Char}

/-- The same reading with another value. -/
def map (f : α → β) (t : Taken α s) : Taken β s := ⟨f t.value, t.rest, t.shorter⟩

/-- A reading of what an earlier one left, seen from the start of the earlier one. -/
def after {t : List Char} (r : Taken α t) (h : t.length ≤ s.length) : Taken α s :=
  ⟨r.value, r.rest, Nat.lt_of_lt_of_le r.shorter h⟩

end Taken

end RecordFilter.Text

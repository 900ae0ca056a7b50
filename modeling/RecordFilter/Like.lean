import RecordFilter.Text.Search

/-!
# Patterns

A pattern is a text in which `*` stands for any text, unless a backslash precedes it. It is reduced
to a literal text and to where that has to stand: at the beginning, at the end or anywhere. A
pattern without a wildcard is a beginning, and wildcards inside the pattern are dropped.

## Mechanism

Escaped asterisks are hidden behind a marker while wildcards are looked for, and put back at the
end. Markers are drawn at random until one is not found in the pattern. Which markers are drawn is
not known beforehand, so a pattern is reduced with those that are still to come (`Draws`).
-/

namespace RecordFilter

open Text

/-- Where the literal of a pattern has to stand. -/
inductive LikeMode where
  | beginning
  | ending
  | anywhere
  deriving DecidableEq, Repr

/-- A pattern reduced to a literal and its place. -/
structure Like where
  mode : LikeMode
  literal : List Char
  deriving DecidableEq, Repr

namespace Like

/-- The wildcard. -/
def wildcard : Char := '*'

/-- An asterisk that is no wildcard. -/
def escapedWildcard : List Char := ['\\', wildcard]

/-- Whether a text satisfies the pattern. -/
def accepts (l : Like) (s : List Char) : Bool :=
  match l.mode with
  | .beginning => l.literal.isPrefixOf s
  | .ending => l.literal.isSuffixOf s
  | .anywhere => occurs l.literal s

/-! ## Drawing markers -/

/-- The markers: words between angle brackets, without angle brackets, asterisks and backslashes of
their own. -/
def IsMarker (marker : List Char) : Prop :=
  ∃ word, marker = '<' :: (word ++ ['>']) ∧
    ∀ c ∈ word, c ≠ '<' ∧ c ≠ '>' ∧ c ≠ wildcard ∧ c ≠ '\\'

/-- The markers that are still to come, one after another. Whatever text is given, one of them is
not found in it, or else drawing for this text would not come to an end. A single text might hold
all words of a given length, so their lengths are left open. -/
@[ext]
structure Draws where
  marker : Nat → List Char
  isMarker : ∀ k, IsMarker (marker k)
  fresh : ∀ (text : List Char) (k : Nat), ∃ j, occurs (marker (k + j)) text = false

namespace Draws

/-- The next marker. -/
def head (d : Draws) : List Char := d.marker 0

/-- The markers behind the first `n`. -/
def drop (d : Draws) (n : Nat) : Draws where
  marker k := d.marker (n + k)
  isMarker k := d.isMarker (n + k)
  fresh text k := by
    obtain ⟨j, hj⟩ := d.fresh text (n + k)
    exact ⟨j, by rwa [← Nat.add_assoc]⟩

/-- The markers behind the next one. -/
def tail (d : Draws) : Draws := d.drop 1

/-- Drawing again because the next marker is found in a text. -/
def Redrawn (text : List Char) (d' d : Draws) : Prop := occurs d.head text = true ∧ d' = d.tail

/-- For every text, drawing again comes to an end. -/
theorem wellFounded_redrawn (text : List Char) : WellFounded (Redrawn text) := by
  refine ⟨fun d => ?_⟩
  obtain ⟨j, hj⟩ := d.fresh text 0
  rw [Nat.zero_add] at hj
  induction j generalizing d with
  | zero =>
    refine .intro d fun d' hd' => ?_
    have hfound : occurs (d.marker 0) text = true := hd'.1
    rw [hj] at hfound
    cases hfound
  | succ j ih =>
    refine .intro d fun d' hd' => ?_
    rw [hd'.2]
    refine ih d.tail ?_
    show occurs (d.marker (1 + j)) text = false
    rwa [Nat.add_comm]

end Draws

/-- A marker that is not found in the pattern: the next one, or else one that is drawn again. -/
def freshMarker (pattern : List Char) (d : Draws) : List Char × Draws :=
  if occurs d.head pattern then freshMarker pattern d.tail else (d.head, d.tail)
termination_by (Draws.wellFounded_redrawn pattern).wrap d
decreasing_by exact ⟨‹_›, rfl⟩

/-! ## Reducing patterns -/

/-- The pattern with its escaped asterisks hidden behind a marker, and with a wildcard at its end
if it has none. -/
def mask (marker pattern : List Char) : List Char :=
  let masked := replaceAll escapedWildcard marker pattern
  if masked.contains wildcard then masked else masked ++ [wildcard]

/-- The place of the literal of a masked pattern. -/
def modeOf (masked : List Char) : LikeMode :=
  if masked.head? = some wildcard then
    if masked.getLast? = some wildcard then .anywhere else .ending
  else .beginning

/-- A pattern, read with a given marker. -/
def ofMarked (marker pattern : List Char) : Like :=
  let masked := mask marker pattern
  { mode := modeOf masked
    literal := replaceAll marker [wildcard] (masked.filter (· != wildcard)) }

/-- A pattern, with a marker that is drawn for it. -/
def ofPattern (pattern : List Char) : StateM Draws Like := do
  let marker ← freshMarker pattern
  return ofMarked marker pattern

end Like

end RecordFilter

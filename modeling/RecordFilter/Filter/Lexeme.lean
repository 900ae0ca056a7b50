import RecordFilter.Filter.Node
import RecordFilter.Text.Digits

/-!
# Lexemes

The smallest parts of a filter text. Blank, tab, carriage return and line feed stand between them;
every character that is neither one of these nor a quote, a parenthesis or part of an operator
belongs to a word. A word that is an argument is taken whole: it is a date or a number if all of
it has that shape, and otherwise a bare text.
-/

namespace RecordFilter.Filter

open Text

/-! ## Characters -/

/-- The blanks of the filter language. -/
def isSpace (c : Char) : Bool := c == ' ' || c == '\t' || c == '\r' || c == '\n'

/-- The characters with a meaning of their own. -/
def isSpecial (c : Char) : Bool :=
  c == '\'' || c == '"' || c == '(' || c == ')' || c == ';' || c == ',' || c == '=' || c == '!' ||
    c == '<' || c == '>'

/-- The characters of words. -/
def isWordChar (c : Char) : Bool := !isSpace c && !isSpecial c

/-- The characters that a selector begins with. -/
def isSelectorStart (c : Char) : Bool := c.isAlpha || c == '_'

/-- The characters of a selector. -/
def isSelectorChar (c : Char) : Bool := c.isAlphanum || c == '_'

/-- The text from its first character that is no blank. -/
def skipSpace (s : List Char) : List Char := s.dropWhile isSpace

theorem skipSpace_length_le (s : List Char) : (skipSpace s).length ≤ s.length :=
  (List.dropWhile_sublist _).length_le

/-! ## Comparators and combinators -/

/-- A comparator without a name. -/
def symbol? : List Char → Option (List Char × List Char)
  | '=' :: '=' :: s => some (['=', '='], s)
  | '!' :: '=' :: s => some (['!', '='], s)
  | '<' :: '=' :: s => some (['<', '='], s)
  | '>' :: '=' :: s => some (['>', '='], s)
  | '<' :: s => some (['<'], s)
  | '>' :: s => some (['>'], s)
  | _ => none

/-- A comparator: letters between two equals signs, or a symbol. Which names there are is not
asked here. -/
def comparator? (s : List Char) : Option (List Char × List Char) :=
  match s with
  | '=' :: rest =>
    match splitWhile Char.isAlpha rest with
    | (name@(_ :: _), '=' :: after) => some ('=' :: (name ++ ['=']), after)
    | _ => symbol? s
  | _ => symbol? s

theorem symbol?_length {s token rest : List Char} (h : symbol? s = some (token, rest)) :
    rest.length < s.length := by
  unfold symbol? at h
  split at h <;> grind

theorem comparator?_length {s token rest : List Char} (h : comparator? s = some (token, rest)) :
    rest.length < s.length := by
  unfold comparator? at h
  split at h
  · next tail =>
    split at h
    · next name after hs =>
      have := splitWhile_length Char.isAlpha tail
      simp_all
      omega
    · exact symbol?_length h
  · exact symbol?_length h

/-- What joins two constraints. -/
inductive Combinator where
  | and
  | or
  deriving DecidableEq, Repr

/-- A word is a combinator only before a blank or a parenthesis, so a longer word that begins
like it stays whole. -/
def endsKeyword : List Char → Bool
  | [] => false
  | c :: _ => isSpace c || c == '('

/-- A combinator: a semicolon or `and`, a comma or `or`, the words in any letter case. -/
def combinator? : List Char → Option (Combinator × List Char)
  | ';' :: s => some (.and, s)
  | ',' :: s => some (.or, s)
  | s =>
    if lower (s.take 3) = ['a', 'n', 'd'] ∧ endsKeyword (s.drop 3) then some (.and, s.drop 3)
    else if lower (s.take 2) = ['o', 'r'] ∧ endsKeyword (s.drop 2) then some (.or, s.drop 2)
    else none

theorem combinator?_length {s rest : List Char} {c : Combinator}
    (h : combinator? s = some (c, rest)) : rest.length < s.length := by
  unfold combinator? at h
  split at h
  · simp_all
  · simp_all
  · split at h
    · next ha =>
      have := congrArg List.length ha.1
      simp [lower] at this h
      grind
    · split at h
      · next ho =>
        have := congrArg List.length ho.1
        simp [lower] at this h
        grind
      · simp at h

/-! ## Arguments -/

/-- The shape of an optional zone at the end of a date. -/
def isZone : List Char → Bool
  | [] => true
  | ['Z'] => true
  | [sign, a, b, ':', c, d] =>
    (sign == '+' || sign == '-') && a.isDigit && b.isDigit && c.isDigit && d.isDigit
  | _ => false

/-- The shape of what may follow the seconds of a date: a fraction, a zone. -/
def isAfterSeconds : List Char → Bool
  | '.' :: s => !(spanDigits s).1.isEmpty && isZone (spanDigits s).2
  | s => isZone s

/-- The shape of what may follow the minutes of a date: seconds, a zone. -/
def isAfterMinutes : List Char → Bool
  | ':' :: a :: b :: s => a.isDigit && b.isDigit && isAfterSeconds s
  | s => isZone s

/-- The shape of an optional time behind a date. -/
def isAfterDay : List Char → Bool
  | [] => true
  | 'T' :: a :: b :: ':' :: c :: d :: s =>
    a.isDigit && b.isDigit && c.isDigit && d.isDigit && isAfterMinutes s
  | _ => false

/-- The shape of a date, with or without a time. -/
def isDate : List Char → Bool
  | a :: b :: c :: d :: '-' :: e :: f :: '-' :: g :: h :: s =>
    a.isDigit && b.isDigit && c.isDigit && d.isDigit && e.isDigit && f.isDigit &&
      g.isDigit && h.isDigit && isAfterDay s
  | _ => false

/-- Digits, with or without a point and more digits. -/
def isUnsigned (s : List Char) : Bool :=
  match spanDigits s with
  | ([], _) => false
  | (_, []) => true
  | (_, '.' :: places) => !places.isEmpty && places.all Char.isDigit
  | _ => false

/-- The shape of a number. -/
def isNumber : List Char → Bool
  | '-' :: s => isUnsigned s
  | s => isUnsigned s

/-- A word as an argument. -/
def Literal.ofWord (word : List Char) : Literal :=
  if isDate word then .date (String.ofList word)
  else if isNumber word then .number (String.ofList word)
  else .bare (String.ofList word)

/-- The text up to and with a closing quote, and what follows it. A backslash takes the next
character with it, whatever that is. -/
def closing? (quote : Char) : List Char → Option (List Char × List Char)
  | [] => none
  | '\\' :: c :: s => (closing? quote s).map fun (text, rest) => ('\\' :: c :: text, rest)
  | c :: s =>
    if c = quote then some ([c], s)
    else (closing? quote s).map fun (text, rest) => (c :: text, rest)

theorem closing?_length {q : Char} {s text rest : List Char}
    (h : closing? q s = some (text, rest)) : rest.length < s.length := by
  fun_induction closing? q s generalizing text with
  | case1 => simp at h
  | case2 c s ih =>
    obtain ⟨⟨t, r⟩, ht, he⟩ := Option.map_eq_some_iff.1 h
    have := @ih t (by simp_all)
    simp; omega
  | case3 s h1 => simp_all
  | case4 c s h1 h2 ih =>
    obtain ⟨⟨t, r⟩, ht, he⟩ := Option.map_eq_some_iff.1 h
    have := @ih t (by simp_all)
    simp; omega

/-- The argument at the head of a text: quoted, or a whole word. -/
def literal? : List Char → Option (Literal × List Char)
  | [] => none
  | c :: s =>
    if c = '\'' ∨ c = '"' then
      (closing? c s).map fun (text, rest) => (.quoted (String.ofList (c :: text)), rest)
    else if isWordChar c then
      some (.ofWord (c :: s.takeWhile isWordChar), s.dropWhile isWordChar)
    else none

theorem literal?_length {s rest : List Char} {l : Literal} (h : literal? s = some (l, rest)) :
    rest.length < s.length := by
  cases s with
  | nil => simp [literal?] at h
  | cons c s =>
    simp only [literal?] at h
    split at h
    · obtain ⟨⟨t, r⟩, ht, he⟩ := Option.map_eq_some_iff.1 h
      have := closing?_length ht
      simp_all; omega
    · split at h
      · simp at h
        have : (s.dropWhile isWordChar).length ≤ s.length := (List.dropWhile_sublist _).length_le
        rw [← h.2]
        simp; omega
      · simp at h

end RecordFilter.Filter

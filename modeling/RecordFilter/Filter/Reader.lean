import RecordFilter.Filter.SyntaxError
import RecordFilter.Text.Taken

/-!
# Reading filters

The grammar of filters, with blanks allowed between any two lexemes:

* a filter is nothing, or alternatives;
* alternatives are conjunctions joined by `,` or `or`;
* a conjunction is constraints joined by `;` or `and`;
* a constraint is alternatives in parentheses, or a comparison;
* a comparison is a selector, a comparator, and either one argument, or arguments in parentheses
  joined by commas, or none.

A construct that has begun has to be finished: no other reading of its text could succeed, so
nothing is tried again. Every reader takes something from the text, and nested readers get a
shorter text, by which the recursion ends.

The text is read first with every word allowed between the equals signs of a comparator; the names
of the comparators are looked up afterwards, from left to right.
-/

namespace RecordFilter.Filter

open Text

/-! ## Failure -/

/-- The place where a reader got stuck, as the rest of the text, and what was looked for there. -/
structure Stuck where
  rest : List Char
  expected : List Construct

/-- The same failure inside parentheses, where the text may not end. -/
def Stuck.enclosed (e : Stuck) : Stuck :=
  { e with expected := e.expected.filter (· != .endOfText) }

/-- The error of a reader that got stuck in a text. -/
def Stuck.toError (whole : List Char) (e : Stuck) : SyntaxError :=
  let head := before whole e.rest
  .unexpected (Construct.all.filter fun c => c ∈ e.expected) (lineOf head) (columnOf head)
    (String.ofList (lineAround whole e.rest))

/-! ## Comparisons -/

/-- A comparison as it is written, with the text that begins at its selector, the text that begins
at its comparator, and the text behind it. -/
structure Clause where
  selector : List Char
  token : List Char
  arguments : List Literal
  start : List Char
  tokenStart : List Char
  stop : List Char

/-- A failure at an argument in parentheses: the forms that were tried before the one it has. -/
def stuckAtArgument (fallback : Stuck) (s : List Char) : Literal → Stuck
  | .quoted _ => fallback
  | .date _ => ⟨s, [.quoted]⟩
  | .number _ => ⟨s, [.quoted, .date]⟩
  | .bare _ => ⟨s, [.quoted, .date, .number]⟩

/-- Arguments joined by commas up to a closing parenthesis, at least one. `fallback` is the failure
of a list that breaks off and whose arguments so far are all quoted. -/
def readArguments (fallback : Stuck) (s : List Char) : Except Stuck (List Literal × List Char) :=
  match _hl : literal? (skipSpace s) with
  | none => .error ⟨skipSpace s, [.quoted, .date, .number, .bare]⟩
  | some (l, rest) =>
    match _hr : skipSpace rest with
    | ')' :: after => .ok ([l], after)
    | ',' :: more => do
      let (ls, after) ← readArguments (stuckAtArgument fallback (skipSpace s) l) more
      .ok (l :: ls, after)
    | _ => .error (stuckAtArgument fallback (skipSpace s) l)
termination_by s.length
decreasing_by
  have h1 := literal?_length _hl
  have h2 := skipSpace_length_le s
  have h3 := skipSpace_length_le rest
  rw [_hr] at h3
  simp at h3
  omega

theorem readArguments_length {fallback : Stuck} {s after : List Char} {ls : List Literal}
    (h : readArguments fallback s = .ok (ls, after)) : after.length < s.length := by
  fun_induction readArguments fallback s generalizing ls with
  | case1 => simp at h
  | case2 fallback s l rest hl after' hr =>
    have h1 := literal?_length hl
    have h2 := skipSpace_length_le s
    have h3 := skipSpace_length_le rest
    simp_all
    omega
  | case3 fallback s l rest hl more hr ih =>
    have h1 := literal?_length hl
    have h2 := skipSpace_length_le s
    have h3 := skipSpace_length_le rest
    rw [hr] at h3
    simp at h3
    cases hm : readArguments (stuckAtArgument fallback (skipSpace s) l) more with
    | error e => simp [hm, bind, Except.bind] at h
    | ok v =>
      obtain ⟨ls', a⟩ := v
      simp [hm, bind, Except.bind] at h
      have := @ih ls' (by rw [hm, h.2])
      omega
  | case4 => simp at h

/-- The arguments behind a comparator: a list in parentheses, or one argument that is no
combinator, or none. -/
def readOptionalArguments (s : List Char) : Except Stuck (List Literal × List Char) :=
  match s with
  | '(' :: rest => readArguments ⟨s, [.endOfText, .andOperator, .orOperator, .arguments]⟩ rest
  | _ =>
    match combinator? s, literal? s with
    | none, some (l, rest) => .ok ([l], rest)
    | _, _ => .ok ([], s)

theorem readOptionalArguments_length {s after : List Char} {ls : List Literal}
    (h : readOptionalArguments s = .ok (ls, after)) : after.length ≤ s.length := by
  unfold readOptionalArguments at h
  split at h
  · have := readArguments_length h
    simp; omega
  · split at h
    · next hl =>
      have := literal?_length hl
      simp only [Except.ok.injEq, Prod.mk.injEq] at h
      rw [← h.2]
      omega
    · simp only [Except.ok.injEq, Prod.mk.injEq] at h
      exact Nat.le_of_eq (congrArg List.length h.2.symm)

/-- A comparison at the head of a text, which begins with the given character of a selector. -/
def readComparison (c : Char) (s : List Char) : Except Stuck (Clause × List Char) :=
  let tokenStart := skipSpace (s.dropWhile isSelectorChar)
  match comparator? tokenStart with
  | none => .error ⟨tokenStart, [.comparator]⟩
  | some (token, rest) => do
    let (arguments, stop) ← readOptionalArguments (skipSpace rest)
    let selector := c :: s.takeWhile isSelectorChar
    .ok ({ selector, token, arguments, start := c :: s, tokenStart, stop }, stop)

theorem readComparison_length {c : Char} {s stop : List Char} {k : Clause}
    (h : readComparison c s = .ok (k, stop)) : stop.length < s.length := by
  simp only [readComparison] at h
  split at h
  · simp at h
  · next token rest hc =>
    have h1 := comparator?_length hc
    have h2 := skipSpace_length_le (s.dropWhile isSelectorChar)
    have h3 : (s.dropWhile isSelectorChar).length ≤ s.length :=
      (List.dropWhile_sublist _).length_le
    have h4 := skipSpace_length_le rest
    cases ha : readOptionalArguments (skipSpace rest) with
    | error e => simp [ha, bind, Except.bind] at h
    | ok v =>
      have h5 := readOptionalArguments_length ha
      simp [ha, bind, Except.bind] at h
      rw [← h.2]
      omega

/-! ## Constraints -/

/-- Alternatives of conjunctions of constraints, and what else could follow the last of them
besides a combinator. -/
structure Reading where
  alternatives : List (List (Node Clause))
  more : List Construct

namespace Reading

/-- The tree of the alternatives. -/
def node (r : Reading) : Node Clause := .or (r.alternatives.map .and)

/-- A single constraint. -/
def single (t : Node Clause) (more : List Construct) : Reading := ⟨[[t]], more⟩

/-- A constraint joined to what follows it. -/
def join (t : Node Clause) : Combinator → Reading → Reading
  | .and, ⟨a :: alternatives, more⟩ => ⟨(t :: a) :: alternatives, more⟩
  | _, r => ⟨[t] :: r.alternatives, r.more⟩

/-- What can follow the last constraint. -/
def followers (r : Reading) : List Construct := r.more ++ [.andOperator, .orOperator]

end Reading

/-- What begins behind a combinator. -/
def Combinator.expected : Combinator → List Construct
  | .and => [.group, .selector]
  | .or => [.conjunction]

mutual

/-- A constraint at the head of a text, and what else could follow it besides a combinator.
`missing` is the failure if no constraint begins here. -/
def readConstraint (missing : Stuck) (s : List Char) :
    Except Stuck (Taken (Node Clause × List Construct) s) :=
  match s with
  | [] => .error missing
  | c :: rest =>
    if c = '(' then
      let inner := skipSpace rest
      have inner_le : inner.length ≤ rest.length := skipSpace_length_le rest
      match readAlternatives ⟨inner, [.conjunction]⟩ inner with
      | .error e => .error e.enclosed
      | .ok ⟨r, behind, behind_lt⟩ =>
        match h : skipSpace behind with
        | ')' :: after => .ok ⟨(r.node, []), after, by
            have := skipSpace_length_le behind
            rw [h] at this
            simp at this ⊢
            omega⟩
        | other => .error ⟨other, r.followers⟩
    else if isSelectorStart c then
      match h : readComparison c rest with
      | .error e => .error e
      | .ok (clause, stop) =>
        let more := if clause.arguments.isEmpty then [.arguments] else []
        .ok ⟨(.leaf clause, more), stop, Nat.lt_succ_of_lt (readComparison_length h)⟩
    else .error missing
termination_by (s.length, 0)
decreasing_by
  exact Prod.Lex.left _ _ (Nat.lt_succ_of_le inner_le)

/-- Alternatives at the head of a text. -/
def readAlternatives (missing : Stuck) (s : List Char) : Except Stuck (Taken Reading s) := do
  let ⟨(t, more), rest, rest_lt⟩ ← readConstraint missing s
  match h : combinator? (skipSpace rest) with
  | none => .ok ⟨.single t more, rest, rest_lt⟩
  | some (c, after) =>
    let next := skipSpace after
    have next_lt : next.length < s.length := by
      have h1 := combinator?_length h
      have h2 := skipSpace_length_le rest
      have h3 := skipSpace_length_le after
      simp only [next]
      omega
    let r ← readAlternatives ⟨next, c.expected⟩ next
    .ok ((r.map (.join t c)).after (Nat.le_of_lt next_lt))
termination_by (s.length, 1)

end

/-! ## Whole texts -/

/-- The comparison of a clause of a text, if its comparator is known. -/
def Clause.resolve (whole : List Char) (c : Clause) : Except SyntaxError Comparison :=
  let token := String.ofList c.token
  match Comparator.ofToken? token with
  | some comparator => .ok
      { selector := String.ofList c.selector, comparator, arguments := c.arguments
        span := .between whole c.start c.stop }
  | none =>
    .error (.unknownComparator token
      (.between whole c.tokenStart (c.tokenStart.drop c.token.length)))

/-- The tree of clauses of a text with at least one constraint, whose first one begins at `s`. -/
def readClauses (missing : Stuck) (s : List Char) : Except Stuck (Node Clause) := do
  let t ← readAlternatives missing s
  match skipSpace t.rest with
  | [] => .ok t.value.node
  | rest => .error ⟨rest, .endOfText :: t.value.followers⟩

/-- What is looked for at the beginning of a text, with or without blanks before it. -/
def expectedFirst (blanks : Bool) : List Construct :=
  if blanks then [.endOfText, .conjunction] else [.filter]

/-- The filter of a text. -/
def readChars (whole : List Char) : Except SyntaxError Filter :=
  match skipSpace whole with
  | [] => .ok unrestricted
  | s =>
    match readClauses ⟨s, expectedFirst (s.length < whole.length)⟩ s with
    | .error e => .error (e.toError whole)
    | .ok t => t.traverse (Clause.resolve whole)

/-- The filter of a text. -/
def read (text : String) : Except SyntaxError Filter := readChars text.toList

end RecordFilter.Filter

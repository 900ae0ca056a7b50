import RecordFilter.Filter.Lexeme

/-!
# Syntax errors

Where a filter text stops making sense, and what was looked for there. An error is shown with the
line it stands in and a caret under its column.
-/

namespace RecordFilter.Filter

/-- What can be looked for at a place of a filter text, in the order in which it is listed. -/
inductive Construct where
  | endOfText
  | filter
  | conjunction
  | group
  | andOperator
  | orOperator
  | selector
  | comparator
  | arguments
  | quoted
  | date
  | number
  | bare
  deriving DecidableEq, Repr

namespace Construct

/-- All constructs in the order in which they are listed. -/
def all : List Construct :=
  [endOfText, filter, conjunction, group, andOperator, orOperator, selector, comparator,
    arguments, quoted, date, number, bare]

/-- The name of a construct in messages. -/
def name : Construct → String
  | endOfText => "EOI"
  | filter => "filter"
  | conjunction => "and_expr"
  | group => "group"
  | andOperator => "and_op"
  | orOperator => "or_op"
  | selector => "selector"
  | comparator => "comparator"
  | arguments => "arguments"
  | quoted => "quoted"
  | date => "date"
  | number => "number"
  | bare => "unquoted"

end Construct

/-- Names in a sentence: `a`, `a or b`, `a, b, or c`. -/
def enumerate : List String → String
  | [] => ""
  | [a] => a
  | [a, b] => s!"{a} or {b}"
  | names => String.intercalate ", " names.dropLast ++ ", or " ++ names.getLastD ""

/-! ## Places -/

/-- The text of `whole` before its ending `rest`. -/
def before (whole rest : List Char) : List Char := whole.take (whole.length - rest.length)

/-- The length of a text in bytes of UTF-8. -/
def byteLength : List Char → Nat
  | [] => 0
  | c :: s => c.utf8Size + byteLength s

/-- The line at the end of a text, counted from 1. -/
def lineOf (s : List Char) : Nat := s.count '\n' + 1

/-- The column at the end of a text, counted from 1 in characters. -/
def columnOf (s : List Char) : Nat := (s.reverse.takeWhile (· != '\n')).length + 1

/-- The span from the ending `start` of a text to its shorter ending `stop`. -/
def Span.between (whole start stop : List Char) : Span :=
  let head := before whole start
  { start := byteLength head, stop := byteLength (before whole stop),
    line := lineOf head, column := columnOf head }

/-- A line break as a visible sign; other characters stay. -/
def showBreak (c : Char) : Char :=
  if c = '\n' then '␊' else if c = '\r' then '␍' else c

/-- The line in which the ending `rest` of a text begins. Its line break is left out, unless `rest`
begins at a line break: then it is shown. -/
def lineAround (whole rest : List Char) : List Char :=
  let head := ((before whole rest).reverse.takeWhile (· != '\n')).reverse
  let tail := rest.takeWhile (· != '\n')
  let line := head ++ tail ++ (rest.drop tail.length).take 1
  if rest.head? = some '\n' ∨ rest.head? = some '\r' then line.map showBreak
  else line.filter fun c => c != '\r' && c != '\n'

/-! ## Errors -/

/-- Why a text is no filter. -/
inductive SyntaxError where
  /-- One of several constructs was looked for and none was there. -/
  | unexpected (expected : List Construct) (line column : Nat) (lineText : String)
  /-- A comparator between equals signs that there is not. -/
  | unknownComparator (token : String) (span : Span)
  deriving DecidableEq, Repr

/-- What was looked for, in words. -/
def detail (expected : List Construct) : String :=
  s!"parsing error: expected {enumerate (expected.map Construct.name)}"

/-- The message of an error on one line. -/
def SyntaxError.message : SyntaxError → String
  | unexpected expected line column _ =>
    s!"Parse error at line {line}, column {column}: {detail expected}"
  | unknownComparator token span =>
    s!"Unknown comparator '{token}' at line {span.line}, column {span.column}"

/-- The message with the line and a caret, where there is a line to show. -/
def SyntaxError.render : SyntaxError → String
  | unexpected expected line column lineText =>
    s!"Parse Error at line {line}, column {column}:\n{lineText}\n" ++
      String.ofList (List.replicate (column - 1) ' ') ++ s!"^\n{detail expected}"
  | e => e.message

end RecordFilter.Filter

import RecordFilter.Cache
import RecordFilter.Calendar.Date
import RecordFilter.Calendar.DateTime
import RecordFilter.Calendar.Timestamp
import RecordFilter.Cli.Command
import RecordFilter.Cli.Files
import RecordFilter.Cli.Run
import RecordFilter.Coercion
import RecordFilter.Compile
import RecordFilter.Filter.Comparator
import RecordFilter.Filter.Document
import RecordFilter.Filter.Lexeme
import RecordFilter.Filter.Node
import RecordFilter.Filter.Reader
import RecordFilter.Filter.SyntaxError
import RecordFilter.Json.Fields
import RecordFilter.Json.Number
import RecordFilter.Json.Raw
import RecordFilter.Json.Raw.Reader
import RecordFilter.Json.Value
import RecordFilter.Like
import RecordFilter.Like.Counted
import RecordFilter.Main
import RecordFilter.Naming
import RecordFilter.Number.Binary
import RecordFilter.Number.Binary.Shortest
import RecordFilter.Number.Decimal
import RecordFilter.Number.Decimal.Double
import RecordFilter.Number.Decimal.Same
import RecordFilter.Number.Power
import RecordFilter.Predicate
import RecordFilter.Record.Basic
import RecordFilter.Record.Document
import RecordFilter.Resolver
import RecordFilter.Schema.Entity
import RecordFilter.Schema.Kind
import RecordFilter.Schema.Registry
import RecordFilter.Session
import RecordFilter.Settings
import RecordFilter.Table
import RecordFilter.Text.Blank
import RecordFilter.Text.Digits
import RecordFilter.Text.Letters
import RecordFilter.Text.Search
import RecordFilter.Text.Split
import RecordFilter.Text.Taken
import RecordFilter.Text.Uppercase
import RecordFilter.Value.Basic
import RecordFilter.Value.OfJson
import RecordFilter.Value.Order
import RecordFilter.Proofs.Cache.Entries
import RecordFilter.Proofs.Cache.Traffic
import RecordFilter.Proofs.Cache.HitLaw
import RecordFilter.Proofs.Cache.Staleness
import RecordFilter.Proofs.Cache.Accounting
import RecordFilter.Proofs.Cache.Idleness
import RecordFilter.Proofs.Compile.Simulation
import RecordFilter.Proofs.Session.Memory
import RecordFilter.Proofs.Session.Resolution
import RecordFilter.Proofs.Compile.Outcome
import RecordFilter.Proofs.Compile.Drawn
import RecordFilter.Proofs.Compile.Meaning
import RecordFilter.Proofs.Filter.Literals
import RecordFilter.Proofs.Filter.Layout
import RecordFilter.Proofs.Filter.Reading.Clause
import RecordFilter.Proofs.Filter.Reading.Tree
import RecordFilter.Proofs.Filter.Roundtrip
import RecordFilter.Proofs.Filter.Language
import RecordFilter.Proofs.Filter.Reading.Text
import RecordFilter.Proofs.Schema.Names
import RecordFilter.Proofs.Schema.Registration
import RecordFilter.Proofs.Schema.Words
import RecordFilter.Proofs.Compile.Failure
import RecordFilter.Proofs.Compile.Quoted
import RecordFilter.Proofs.Number.Nan
import RecordFilter.Proofs.Number.Powers
import RecordFilter.Proofs.Number.Nearest
import RecordFilter.Proofs.Number.Overflow
import RecordFilter.Proofs.Number.Rounding
import RecordFilter.Proofs.Number.Decimals
import RecordFilter.Proofs.Number.Twice
import RecordFilter.Proofs.Number.Shortest
import RecordFilter.Proofs.Json.Numerals
import RecordFilter.Proofs.Json.Kept
import RecordFilter.Proofs.Json.Written
import RecordFilter.Proofs.Json.Nan
import RecordFilter.Proofs.Record.Values
import RecordFilter.Proofs.Compile.WellTyped
import RecordFilter.Proofs.Compile.Numbers
import RecordFilter.Proofs.Compile.Overflow
import RecordFilter.Proofs.Filter.Grouping
import RecordFilter.Proofs.Filter.Places
import RecordFilter.Proofs.Filter.Padding
import RecordFilter.Proofs.Filter.Greedy
import RecordFilter.Proofs.Filter.Words
import RecordFilter.Proofs.Compile.Grouping
import RecordFilter.Proofs.Cli.Selection
import RecordFilter.Proofs.Compile.Tests
import RecordFilter.Proofs.Number.Line
import RecordFilter.Proofs.Json.Same
import RecordFilter.Proofs.Value.Comparing
import RecordFilter.Proofs.Value.Displayed
import RecordFilter.Proofs.Value.Transitive
import RecordFilter.Proofs.Text.Digits
import RecordFilter.Proofs.Text.Replacing
import RecordFilter.Proofs.Like.Reading
import RecordFilter.Proofs.Like.Draws
import RecordFilter.Proofs.Like.Globs
import RecordFilter.Proofs.Like.Markers
import RecordFilter.Proofs.Like.Searching
import RecordFilter.Proofs.Calendar.DayNumbers
import RecordFilter.Proofs.Calendar.Fields
import RecordFilter.Proofs.Calendar.Written
import RecordFilter.Proofs.Calendar.Splitting
import RecordFilter.Proofs.Calendar.Reading
import RecordFilter.Proofs.Calendar.Roundtrip
import RecordFilter.Proofs.Value.Integers
import RecordFilter.Proofs.Compile.Arguments
import RecordFilter.Proofs.Record.Reading
import RecordFilter.Proofs.Json.Layout
import RecordFilter.Proofs.Json.Spelling
import RecordFilter.Proofs.Json.Roundtrip
import RecordFilter.Proofs.Json.Texts
import RecordFilter.Proofs.Number.Restored
import RecordFilter.Proofs.Record.Roundtrip

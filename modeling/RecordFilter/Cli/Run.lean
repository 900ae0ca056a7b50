import RecordFilter.Cli.Command
import RecordFilter.Cli.Files
import RecordFilter.Compile
import RecordFilter.Filter.Document
import RecordFilter.Record.Basic
import RecordFilter.Settings

/-!
# Running commands

What the commands do, over any file system. A command stops at its first error: settings, schema,
entity, filter, input, and then the records one by one; nothing is written before all of them have
been read.

Two readers are asked for a verdict and not for their words. What the reader of JSON says of a
document that it cannot read is a parameter of messages, and a command line that is no command has
an exit code alone.
-/

namespace RecordFilter.Cli

/-- Why a command fails. -/
inductive Failure where
  | file (system : String)
  | schema (e : SchemaError)
  | settingsFile (path system : String)
  | settings
  | text (e : Filter.SyntaxError)
  | compile (e : CompileError)
  | record (e : Record.ReadError)
  | records
  | unknownEntity (name : String)
  | notAnArray

namespace Failure

/-- The message of a failure. `reason` is what the reader of JSON says of a document that it cannot
read. -/
def message (reason : String) : Failure → String
  | file system => s!"Failed to read input file: {system}"
  | schema e => s!"Invalid schema document: {e.message reason}"
  | settingsFile path system =>
    s!"Invalid settings: Failed to read settings file '{path}': {system}"
  | settings => s!"Invalid settings: Invalid settings: {reason}"
  | text e => e.render
  | compile e => s!"Failed to compile filter: {e.message}"
  | record e => s!"Invalid record: {e.message}"
  | records => s!"Failed to deserialize records as JSON: {reason}"
  | unknownEntity name => s!"Entity '{name}' is not defined in the schema document"
  | notAnArray => "Expected a JSON array of records"

/-- An error of compiling; a syntax error is shown with its line. -/
def ofCompileError : CompileError → Failure
  | .text e => text e
  | e => compile e

end Failure

/-! ## Reports -/

/-- A character of a report. The control characters that terminals obey are written as escapes; tab
and line breaks stay. -/
def showControl (c : Char) : List Char :=
  if c ∈ ['\x07', '\x08', '\x0c', '\x1b', '\x7f'] then
    ['\\', 'x', Nat.digitChar (c.toNat / 16), Nat.digitChar (c.toNat % 16)]
  else if 0x80 ≤ c.toNat ∧ c.toNat ≤ 0x9F then
    ['\\', 'u', '\x7b', Nat.digitChar (c.toNat / 16), Nat.digitChar (c.toNat % 16), '\x7d']
  else [c]

/-- A message as it is reported. -/
def report (message : String) : String := String.ofList (message.toList.flatMap showControl)

/-- What a finished command leaves: its exit code, what it printed, what it reported, and why it
failed. -/
structure Outcome where
  exit : Nat := 0
  stdout : String := ""
  log : List String := []
  failure : Option Failure := none

namespace Outcome

/-- The outcome of a command that fails after it has reported something. -/
def failed (log : List String) (e : Failure) : Outcome := { exit := 1, log, failure := some e }

/-- What is printed as the error of a command, behind its reports. -/
def stderr (reason : String) (o : Outcome) : String :=
  match o.failure with
  | some e => e.message reason ++ "\n"
  | none => ""

end Outcome

/-! ## Steps -/

variable {m : Type → Type} [Monad m]

/-- The text of a file. -/
def readInput (files : Files m) (path : String) : ExceptT Failure m String := do
  match ← files.read path with
  | .ok text => return text
  | .error system => throw (.file system)

/-- The settings of a file, or the defaults without one. -/
def loadSettings (files : Files m) : Option String → ExceptT Failure m Settings
  | none => return {}
  | some path => do
    match ← files.read path with
    | .ok text =>
      match Settings.read text.toList with
      | some settings => return settings
      | none => throw .settings
    | .error system => throw (.settingsFile path system)

/-- A filter compiled for an entity. -/
structure Loaded where
  entity : Entity
  naming : Naming
  predicate : Predicate

/-- Settings, schema and entity, and the filter compiled with them. The convention of the command
line goes before that of the settings. -/
def load (files : Files m) (draws : Like.Draws) (schema entity filter : String)
    (naming : Option Naming) (settings : Option String) : ExceptT Failure m Loaded := do
  let settings ← loadSettings files settings
  let naming := naming.getD settings.naming
  let text ← readInput files schema
  let registry ← (Registry.read text.toList).mapError Failure.schema
  match registry.get? entity with
  | none => throw (.unknownEntity entity)
  | some e =>
    let predicate ←
      (registry.compileText entity naming filter draws).1.mapError Failure.ofCompileError
    return { entity := e, naming, predicate }

/-- The documents whose records satisfy a predicate, in their order; all of them have to be
records. -/
def selectDocuments (e : Entity) (p : Predicate) (documents : List Json) :
    Except Failure (List Json) := do
  let records ← documents.mapM fun j =>
    ((Record.ofJson e j).mapError Failure.record).map fun r => (j, r)
  return (records.filter fun (_, r) => p.evaluate r.get).map (·.1)

/-- The matching documents of an input file, and the number of all its documents. -/
def selectFrom (files : Files m) (l : Loaded) (input : String) :
    ExceptT Failure m (List Json × Nat) := do
  let text ← readInput files input
  match Json.read text.toList with
  | none => throw .records
  | some (.array documents) =>
    let selected ← selectDocuments l.entity l.predicate documents
    return (selected, documents.length)
  | some _ => throw .notAnArray

/-- A document over several lines. -/
def pretty (r : Json.Raw) : String := String.ofList r.pretty

/-- Writing of the result to a file or, without one, to the output. -/
def deliver (files : Files m) (log : List String) (text : String) :
    Option String → m Outcome
  | none => return { stdout := text ++ "\n", log }
  | some path => do
    match ← files.write path text with
    | .ok () => return { log }
    | .error system => return .failed log (.file system)

/-! ## Commands -/

/-- What a command does. A command compiles one filter, with the markers of `draws`. -/
def runCommand (files : Files m) (draws : Like.Draws) : Command → m Outcome
  | .version => return { stdout := "rsql 0.1.0\n" }
  | .help topic => return { stdout := helpText topic }
  | .ast text =>
    match Filter.read text with
    | .ok f => return { stdout := pretty f.toRaw ++ "\n" }
    | .error e => return .failed [] (.text e)
  | .check schema entity filter naming settings => do
    match ← (load files draws schema entity filter naming settings).run with
    | .ok l =>
      let message := s!"Filter compiles for '{entity}' ({l.naming.name}): {l.predicate.write}"
      return { log := [report message] }
    | .error e => return .failed [] e
  | .filter schema entity filter input naming settings output => do
    let selection : ExceptT Failure m (List Json × Nat) := do
      let l ← load files draws schema entity filter naming settings
      selectFrom files l input
    match ← selection.run with
    | .ok (selected, total) =>
      let log := [report s!"{selected.length} of {total} record(s) matched"]
      deliver files log (pretty (.array (selected.map Json.toRaw))) output
    | .error e => return .failed [] e

/-- What a command line does. -/
def run (files : Files m) (draws : Like.Draws) (args : List String) : m Outcome :=
  match Command.ofArguments args with
  | some c => runCommand files draws c
  | none => return { exit := 2 }

end RecordFilter.Cli

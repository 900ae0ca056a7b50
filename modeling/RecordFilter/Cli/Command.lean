import RecordFilter.Naming

/-!
# Commands

The command line: a command and its options, each with a value. An option is written before its
value as an argument of its own, or joined to it by an equals sign; a value of its own may not
begin with a dash. Every option is given at most once. Help can be asked for in every place where
an option can stand.
-/

namespace RecordFilter.Cli

/-- What the program is asked to do. -/
inductive Command where
  | ast (filter : String)
  | check (schema entity filter : String) (naming : Option Naming) (settings : Option String)
  | filter (schema entity filter input : String) (naming : Option Naming)
      (settings output : Option String)
  | help (topic : Option String)
  | version
  deriving DecidableEq, Repr

/-- An option of a command. -/
structure OptionForm where
  name : String
  about : String
  required : Bool

/-- A command with its options. -/
structure CommandForm where
  name : String
  about : String
  options : List OptionForm

/-- The options of the commands that compile for an entity. -/
def entityOptions : List OptionForm := [
  ⟨"schema", "Schema document path (JSON)", true⟩,
  ⟨"entity", "Entity name within the schema document", true⟩,
  ⟨"filter", "Filter expression", true⟩]

/-- The options that say how selectors are read. -/
def conventionOptions : List OptionForm := [
  ⟨"naming", "Field naming convention: as_is, camel_case or snake_case", false⟩,
  ⟨"settings", "Compiler settings file path (JSON)", false⟩]

/-- All commands. -/
def commandForms : List CommandForm := [
  ⟨"ast", "Print the parsed filter tree as JSON", [⟨"filter", "Filter expression", true⟩]⟩,
  ⟨"check", "Compile a filter against an entity schema and report the result",
    entityOptions ++ conventionOptions⟩,
  ⟨"filter", "Print the records of a JSON array that match a filter",
    entityOptions ++ [⟨"input", "Records file path (JSON array of objects)", true⟩] ++
      conventionOptions ++
      [⟨"output", "If specified, writes the matching records to this file instead of stdout",
        false⟩]⟩]

/-- The command with a name. -/
def commandForm? (name : String) : Option CommandForm := commandForms.find? (·.name = name)

/-! ## Help -/

/-- A text with blanks behind it, at least `width` characters long. -/
def padRight (width : Nat) (s : String) : String :=
  s ++ String.ofList (List.replicate (width - s.length) ' ')

/-- The most characters of a line of help. -/
def lineWidth : Nat := 100

/-- Words on lines of at most `width` characters, as many on each as fit. `line` is the line that
has been begun. -/
def fillLines (width : Nat) (line : String) : List String → List String
  | [] => [line]
  | word :: rest =>
    if line.length + 1 + word.length ≤ width then fillLines width (line ++ " " ++ word) rest
    else line :: fillLines width word rest

/-- A text on lines of at most `width` characters. -/
def wrap (width : Nat) (s : String) : List String :=
  match s.splitOn " " with
  | [] => []
  | word :: rest => fillLines width word rest

/-- Two columns, the first as wide as it has to be and the second wrapped. -/
def columns (rows : List (String × String)) : String :=
  let indent := (rows.map fun (left, _) => left.length).foldl max 0 + 4
  String.join (rows.map fun (left, right) =>
    padRight indent ("  " ++ left) ++
      String.intercalate ("\n" ++ padRight indent "") (wrap (lineWidth - indent) right) ++ "\n")

/-- An option with a name for its value. -/
def OptionForm.shape (o : OptionForm) : String := s!"--{o.name} <{o.name.toUpper}>"

/-- How a command is called. -/
def CommandForm.help (c : CommandForm) : String :=
  let required := c.options.filter (·.required)
  let others := if required.length < c.options.length then " [OPTIONS]" else ""
  s!"{c.about}\n\nUsage: rsql {c.name}{others}" ++
    String.join (required.map fun o => " " ++ o.shape) ++ "\n\nOptions:\n" ++
    columns (c.options.map (fun o => ("    " ++ o.shape, o.about)) ++
      [("-h, --help", "Print help")])

/-- How the program is called. -/
def usage : String :=
  "RSQL filter compiler\n\nUsage: rsql <COMMAND>\n\nCommands:\n" ++
    columns (commandForms.map (fun c => (c.name, c.about)) ++
      [("help", "Print this message or the help of the given subcommand(s)")]) ++
    "\nOptions:\n" ++
    columns [("-h, --help", "Print help"), ("-V, --version", "Print version")]

/-- The help on a topic, which is a command or the whole program. -/
def helpText (topic : Option String) : String :=
  match topic.bind commandForm? with
  | some c => c.help
  | none => usage

/-! ## Reading -/

/-- What stands behind the name of a command: a question for help, or options with values. -/
inductive Arguments where
  | help
  | values (values : List (String × String))

/-- The arguments with one more option in front; help stays help. -/
def Arguments.cons (option : String × String) : Arguments → Arguments
  | help => help
  | values vs => values (option :: vs)

/-- An option and, if an equals sign joins it, its value. -/
def splitOption (arg : String) : Option (String × Option String) :=
  match arg.toList with
  | '-' :: '-' :: rest =>
    let name := String.ofList (rest.takeWhile (· != '='))
    match rest.dropWhile (· != '=') with
    | _ :: value => some (name, some (String.ofList value))
    | [] => some (name, none)
  | _ => none

/-- An argument that can be a value: it does not begin with a dash, or is nothing else. -/
def isValue (arg : String) : Bool := arg.toList.head? != some '-' || arg = "-"

/-- The value can be one of the option: that of a convention has to be a convention. -/
def accepts (name value : String) : Bool := name ≠ "naming" || (Naming.ofWord? value).isSome

/-- The argument is a long option without a value, or begins with the letter of a short one. Letters
behind the first one are not looked at, since the answer is given at the first. -/
def asksFor (long : String) (short : Char) (arg : String) : Bool :=
  arg = "--" ++ long || ['-', short].isPrefixOf arg.toList

/-- The arguments of a command. `names` are the options that may still be given. -/
def readArguments (names : List String) : List String → Option Arguments
  | [] => some (.values [])
  | arg :: rest =>
    if asksFor "help" 'h' arg then some .help
    else if arg = "--" then if rest.isEmpty then some (.values []) else none
    else
      match splitOption arg, rest with
      | some (name, some value), rest =>
        if name ∈ names ∧ accepts name value then
          (readArguments (names.erase name) rest).map (.cons (name, value))
        else none
      | some (name, none), value :: rest =>
        if name ∈ names ∧ isValue value ∧ accepts name value then
          (readArguments (names.erase name) rest).map (.cons (name, value))
        else none
      | _, _ => none

/-- The command of the given name with its options. -/
def build (name : String) (values : List (String × String)) : Option Command := do
  let naming := (values.lookup "naming").bind Naming.ofWord?
  let filter ← values.lookup "filter"
  match name with
  | "ast" => some (.ast filter)
  | "check" =>
    let schema ← values.lookup "schema"
    let entity ← values.lookup "entity"
    some (.check schema entity filter naming (values.lookup "settings"))
  | "filter" =>
    let schema ← values.lookup "schema"
    let entity ← values.lookup "entity"
    let input ← values.lookup "input"
    some (.filter schema entity filter input naming (values.lookup "settings")
      (values.lookup "output"))
  | _ => none

/-- The question for help on a topic, if there is any. -/
def readTopic : List String → Option Command
  | [] => some (.help none)
  | [name] => if name = "help" ∨ (commandForm? name).isSome then some (.help (some name)) else none
  | _ => none

/-- The command of a command line; `none` if it is none. -/
def Command.ofArguments : List String → Option Command
  | [] => none
  | name :: args =>
    if asksFor "version" 'V' name then some .version
    else if asksFor "help" 'h' name then some (.help none)
    else if name = "help" then readTopic args
    else do
      let form ← commandForm? name
      match ← readArguments (form.options.map (·.name)) args with
      | .help => some (.help (some name))
      | .values values => build name values

end RecordFilter.Cli

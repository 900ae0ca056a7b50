/-!
# Files

What the program asks of a file system: to read a whole file and to write one. `Directory` is a file
system in memory, in which the program runs.

## Paths

A path is walked name by name. Every place on the way has to be a directory, `.` stays there, `..`
goes up, and an absolute path begins at the root. A slash at the end asks for a directory: a file
cannot be read through such a path, and nothing can be written to it. Names and whole paths are
limited in length, in bytes; the limit of a name counts when it is looked up.
-/

namespace RecordFilter.Cli

/-- Reading and writing of whole files. A failure is the message of the system. -/
structure Files (m : Type → Type) where
  read : String → m (Except String String)
  write : String → String → m (Except String Unit)

/-! ## Failures -/

/-- Why a path cannot be used as a file. -/
inductive FileError where
  | notFound
  | notADirectory
  | isADirectory
  | nameTooLong
  deriving DecidableEq, Repr

/-- A message of the system with its number. -/
def systemMessage (text : String) (number : Nat) : String := s!"{text} (os error {number})"

/-- The message of a failure. -/
def FileError.message : FileError → String
  | notFound => systemMessage "No such file or directory" 2
  | notADirectory => systemMessage "Not a directory" 20
  | isADirectory => systemMessage "Is a directory" 21
  | nameTooLong => systemMessage "File name too long" 36

/-! ## Places -/

/-- A place in the file system: the names on the way to it from the directory of the program, or
from the root. -/
structure Place where
  inside : Bool
  names : List String
  deriving DecidableEq, Repr

namespace Place

/-- The place above. Nothing is known of what lies above the directory of the program, so that is
the root; above the root is the root. -/
def parent (p : Place) : Place :=
  if p.names.isEmpty then ⟨false, []⟩ else { p with names := p.names.dropLast }

/-- The place with a name below another one. -/
def child (p : Place) (name : String) : Place := { p with names := p.names ++ [name] }

end Place

/-- What stands at a place. -/
inductive Entry where
  | directory
  | file (text : String)
  | nothing
  deriving DecidableEq, Repr

/-- A path taken apart: where it begins, its names, and whether a slash follows them. -/
structure Path where
  start : Place
  names : List String
  slash : Bool
  deriving DecidableEq, Repr

namespace Path

/-- The most bytes of a name. -/
def maxName : Nat := 255

/-- The most bytes of a whole path. -/
def maxPath : Nat := 4095

/-- The path that a text is. -/
def ofText (s : String) : Path :=
  { start := ⟨s.toList.head? != some '/', []⟩
    names := (s.splitOn "/").filter (· ≠ "")
    slash := s.toList.getLast? = some '/' }

/-- The last name is one of an entry of a directory, and a slash follows it. -/
def asksForDirectory (p : Path) : Bool :=
  p.slash && p.names.getLast?.any fun name => name ≠ "." ∧ name ≠ ".."

end Path

/-! ## Directories -/

/-- Files and the places where they stand. -/
abbrev Directory := List (Place × String)

namespace Directory

/-- The directory with these files, under their names. -/
def ofFiles (files : List (String × String)) : Directory :=
  files.map fun (name, text) => (⟨true, (Path.ofText name).names.filter (· ≠ ".")⟩, text)

/-- A file stands somewhere below the place. -/
def isAboveFile (d : Directory) (p : Place) : Bool :=
  d.any fun (q, _) =>
    p.inside = q.inside ∧ p.names.isPrefixOf q.names ∧ p.names.length < q.names.length

/-- What stands at a place. -/
def entry (d : Directory) (p : Place) : Entry :=
  match d.lookup p with
  | some text => .file text
  | none => if p.names.isEmpty || d.isAboveFile p then .directory else .nothing

/-- That a directory stands at a place. -/
def requireDirectory (d : Directory) (p : Place) : Except FileError Unit :=
  match d.entry p with
  | .directory => .ok ()
  | .file _ => .error .notADirectory
  | .nothing => .error .notFound

/-- One step of a walk, from a place on. -/
def step (d : Directory) (p : Place) (name : String) : Except FileError Place := do
  d.requireDirectory p
  if name = "." then .ok p
  else if name = ".." then .ok p.parent
  else if Path.maxName < name.utf8ByteSize then .error .nameTooLong
  else .ok (p.child name)

/-- The place to which names lead, from a place on. -/
def walk (d : Directory) (p : Place) (names : List String) : Except FileError Place :=
  names.foldlM d.step p

/-- The path of a text that is short enough to be one. -/
def pathOf (s : String) : Except FileError Path :=
  if s = "" then .error .notFound
  else if Path.maxPath < s.utf8ByteSize then .error .nameTooLong
  else .ok (.ofText s)

/-- The text of a file. -/
def readText (d : Directory) (name : String) : Except FileError String := do
  let path ← pathOf name
  let place ← d.walk path.start path.names
  if path.slash then d.requireDirectory place
  match d.entry place with
  | .file text => .ok text
  | .directory => .error .isADirectory
  | .nothing => .error .notFound

/-- The directory with the text of a file set. -/
def put (d : Directory) (p : Place) (text : String) : Directory :=
  if (d.lookup p).isSome then d.map fun (q, t) => if q = p then (q, text) else (q, t)
  else d ++ [(p, text)]

/-- The directory with the text of a file set; the file may be a new one in a directory that is
there. -/
def writeText (d : Directory) (name text : String) : Except FileError Directory := do
  let path ← pathOf name
  if path.asksForDirectory then
    d.requireDirectory (← d.walk path.start path.names.dropLast)
    .error .isADirectory
  else
    let place ← d.walk path.start path.names
    match d.entry place with
    | .directory => .error .isADirectory
    | .file _ | .nothing => .ok (d.put place text)

/-- Reading and writing of the files of a directory. -/
def files : Files (StateM Directory) where
  read name := do return ((← get).readText name).mapError FileError.message
  write name text := do
    match (← get).writeText name text with
    | .ok d => set d; return .ok ()
    | .error e => return .error e.message

end Directory

end RecordFilter.Cli

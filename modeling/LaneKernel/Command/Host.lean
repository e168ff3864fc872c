import LaneKernel.Text.Blank

/-!
# Hosts

What a command needs from its surroundings: files, a place to print to and a
log.  `Session` is a host that lives in memory: one directory of files,
everything printed and every log record.
-/

namespace LaneKernel.Command

/-- A file could not be read or written. -/
structure FileError where
  operation : String
  path : String
  reason : String
deriving DecidableEq, Repr

def FileError.message (failure : FileError) : String :=
  failure.operation ++ " " ++ failure.path ++ ": " ++ failure.reason

inductive LogLevel where
  | debug
  | info
deriving DecidableEq, Repr

def LogLevel.name : LogLevel → String
  | debug => "DEBUG"
  | info => "INFO"

structure LogRecord where
  level : LogLevel
  message : String
  attributes : List (String × String)
deriving DecidableEq, Repr

/-- The surroundings of a command. -/
structure Host (m : Type → Type) where
  readFile : String → m (Except FileError ByteArray)
  writeFile : String → ByteArray → m (Except FileError Unit)
  print : String → m Unit
  log : LogRecord → m Unit
  /-- The setting that can hide the vector unit. -/
  setting : m String

structure Session where
  files : List (String × ByteArray) := []
  output : String := ""
  /-- The log, last record first. -/
  recent : List LogRecord := []

namespace Session

def noFile : String := "no such file or directory"
def notDirectory : String := "not a directory"
def isDirectory : String := "is a directory"

def records (session : Session) : List LogRecord := session.recent.reverse

/-- What a path names in a directory without subdirectories. -/
inductive Place where
  | directory
  | file (name : String)
  /-- A file name with a slash behind it. -/
  | slashed (name : String)
  /-- Something inside the named entry. -/
  | inside (name : String)
  | elsewhere
deriving DecidableEq, Repr

def Place.ofPath (path : String) : Place :=
  let parts := Text.split '/' path.toList
  let names := parts.filter fun part => !part.isEmpty && part ≠ ['.']
  if path.isEmpty || parts.head? = some [] || names.contains ['.', '.'] then
    .elsewhere
  else
    match names with
    | [] => .directory
    | [name] =>
        if parts.getLast? = some name then .file (String.ofList name)
        else .slashed (String.ofList name)
    | name :: _ => .inside (String.ofList name)

def find? (session : Session) (name : String) : Option ByteArray :=
  session.files.lookup name

/-- Why a place below a named entry cannot be reached. -/
def blocked (session : Session) (name : String) : String :=
  if (session.find? name).isSome then notDirectory else noFile

def read (session : Session) (path : String) : Except FileError ByteArray :=
  match Place.ofPath path with
  | .directory => .error ⟨"read", path, isDirectory⟩
  | .elsewhere => .error ⟨"open", path, noFile⟩
  | .slashed name | .inside name => .error ⟨"open", path, session.blocked name⟩
  | .file name =>
      match session.find? name with
      | some content => .ok content
      | none => .error ⟨"open", path, noFile⟩

/-- The session with a file added or replaced. -/
def put (session : Session) (name : String) (content : ByteArray) : Session :=
  { session with
    files := (name, content) :: session.files.filter fun file =>
      file.1 ≠ name }

def write (session : Session) (path : String) (content : ByteArray) :
    Except FileError Session :=
  match Place.ofPath path with
  | .directory => .error ⟨"open", path, isDirectory⟩
  | .elsewhere => .error ⟨"open", path, noFile⟩
  | .slashed name =>
      .error ⟨"open", path, if (session.find? name).isSome then notDirectory
        else isDirectory⟩
  | .inside name => .error ⟨"open", path, session.blocked name⟩
  | .file name => .ok (session.put name content)

/-- The files with their sizes, in the order of their names. -/
def listing (session : Session) : List (String × Nat) :=
  (session.files.map fun file => (file.1, file.2.size)).mergeSort
    fun first second => !decide (second.1 < first.1)

/-- A session as a host. -/
def host (setting : String) : Host (StateM Session) where
  readFile path session := (session.read path, session)
  writeFile path content session :=
    match session.write path content with
    | .ok session => (.ok (), session)
    | .error failure => (.error failure, session)
  print text session := ((), { session with output := session.output ++ text })
  log record session :=
    ((), { session with recent := record :: session.recent })
  setting session := (setting, session)

end Session

end LaneKernel.Command

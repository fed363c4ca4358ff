/-
A working directory as data: file names with contents, no subdirectories.

A path is followed name by name, from the working directory or, after a leading slash, from the root
directory. Of what lies outside the working directory only that is known which every system has: the
directories around it, the root directory with its directories for devices and for temporary files,
and the null device.

* `Directory.walk` follows the names of a path up to the last one.
* `Directory.read` and `Directory.nameFor` say what reading and writing at the end of a path lead
  to.
-/
import WordMachine.Word

namespace WordMachine.Command

/-- A path, taken apart at its slashes. Repeated slashes count as one. -/
structure Path where
  /-- Whether the path starts with a slash. -/
  rooted : Bool
  /-- What stands between the slashes. -/
  names : List String
  /-- Whether the path ends with a slash. -/
  slashed : Bool
  deriving DecidableEq, Repr

namespace Path

def ofString (path : String) : Path :=
  let parts := path.splitOn "/"
  { rooted := parts.head? = some ""
    names := parts.filter (· ≠ "")
    slashed := parts.getLast? = some "" }

/-- The number of bytes that a path may have. -/
def limit : Nat := 4095

/-- The number of bytes that a name in a path may have. -/
def nameLimit : Nat := 255

/-- Whether a name in a path stands for a directory wherever it is used. -/
def isDots (name : String) : Bool := name = "." || name = ".."

end Path

/-- A directory that a path can lead to. -/
inductive Folder where
  /-- The working directory. -/
  | here
  /-- A directory around the working directory. -/
  | around
  | root
  /-- The directory of the devices. -/
  | devices
  /-- The directory of the temporary files. -/
  | temporary
  deriving DecidableEq, Repr

/-- The directory that a directory is in. The root directory is in itself. -/
def Folder.parent : Folder → Folder
  | .here | .around => .around
  | .root | .devices | .temporary => .root

/-- What a name in a directory stands for. -/
inductive Entry where
  | folder (folder : Folder)
  | file (bytes : Bytes)
  | absent
  deriving DecidableEq, Repr

/-- The files of a working directory. -/
structure Directory where
  files : List (String × Bytes)
  deriving DecidableEq, Repr

namespace Directory

def missing : String := "No such file or directory (os error 2)"

def notADirectory : String := "Not a directory (os error 20)"

def isADirectory : String := "Is a directory (os error 21)"

def nameTooLong : String := "File name too long (os error 36)"

def contents? (d : Directory) (name : String) : Option Bytes :=
  (d.files.find? (·.1 = name)).map (·.2)

/-- What a name stands for in a folder. -/
def entry (d : Directory) : Folder → String → Entry
  | .here, name =>
    match d.contents? name with
    | some bytes => .file bytes
    | none => .absent
  | .root, "dev" => .folder .devices
  | .root, "tmp" => .folder .temporary
  | .devices, "null" => .file []
  | _, _ => .absent

/-- Looks a name up in a folder. -/
def lookup (d : Directory) (folder : Folder) (name : String) : Except String Entry :=
  if Path.nameLimit < name.utf8ByteSize then .error nameTooLong else .ok (d.entry folder name)

/-- Goes from a folder to the one that a name stands for. -/
def enter (d : Directory) (folder : Folder) (name : String) : Except String Folder :=
  if name = "." then .ok folder
  else if name = ".." then .ok folder.parent
  else
    match d.lookup folder name with
    | .ok (.folder inner) => .ok inner
    | .ok (.file _) => .error notADirectory
    | .ok .absent => .error missing
    | .error reason => .error reason

/-- Goes from a folder along names. -/
def walk (d : Directory) (folder : Folder) : List String → Except String Folder
  | [] => .ok folder
  | name :: names =>
    match d.enter folder name with
    | .ok inner => d.walk inner names
    | .error reason => .error reason

/-- Where a path ends. -/
inductive Ending where
  /-- At a directory that no name is given for. -/
  | folder
  /-- At a name in a folder, which a slash may follow. -/
  | named (folder : Folder) (name : String) (slashed : Bool)
  deriving DecidableEq, Repr

/-- Follows a path up to its last name. -/
def ending (d : Directory) (path : String) : Except String Ending :=
  if path = "" then .error missing
  else if Path.limit < path.utf8ByteSize then .error nameTooLong
  else
    let p := Path.ofString path
    match p.names.getLast? with
    | none => .ok .folder
    | some name =>
      match d.walk (if p.rooted then .root else .here) p.names.dropLast with
      | .ok folder => .ok (if Path.isDots name then .folder else .named folder name p.slashed)
      | .error reason => .error reason

/-- The contents of a file, or why it cannot be read. -/
def read (d : Directory) (path : String) : Except String Bytes :=
  match d.ending path with
  | .error reason => .error reason
  | .ok .folder => .error isADirectory
  | .ok (.named folder name slashed) =>
    match d.lookup folder name with
    | .ok (.folder _) => .error isADirectory
    | .ok (.file bytes) => if slashed then .error notADirectory else .ok bytes
    | .ok .absent => .error missing
    | .error reason => .error reason

/-- The name under which the working directory shows a file that is written, if it does, or why the
file cannot be written. -/
def nameFor (d : Directory) (path : String) : Except String (Option String) :=
  match d.ending path with
  | .error reason => .error reason
  | .ok .folder => .error isADirectory
  | .ok (.named folder name slashed) =>
    if slashed then .error isADirectory
    else
      match d.lookup folder name with
      | .ok (.folder _) => .error isADirectory
      | .ok _ => .ok (if folder = .here then some name else none)
      | .error reason => .error reason

end Directory

end WordMachine.Command

import Telemetry.Bytes
import Telemetry.Failure
/-!
A tree of files and folders around a working directory.

A path is a text of names between slashes. Looking one up goes from name to name; the first that is
missing, or that is a file with a name behind it, decides the error. Two points lead to the folder
above, also above the working directory: what lies there is known as far as it was put there, but
not under which name the working directory itself stands in it.
-/

namespace Telemetry

/-- A way from the working directory: some folders up, then down by names. -/
structure Location where
  above : Nat
  names : List String
  deriving DecidableEq, Repr

namespace Location

/-- The working directory. -/
def start : Location := ⟨0, []⟩

def parent (l : Location) : Location :=
  if l.names.isEmpty then ⟨l.above + 1, []⟩ else ⟨l.above, l.names.dropLast⟩

def child (l : Location) (name : String) : Location := ⟨l.above, l.names ++ [name]⟩

/-- Whether a location is this one or lies below it. -/
def covers (l m : Location) : Bool := l.above == m.above && l.names.isPrefixOf m.names

@[simp] theorem parent_child (l : Location) (name : String) : (l.child name).parent = l := by
  simp [parent, child]

end Location

inductive FileEntry where
  | file (content : Bytes)
  | folder
  deriving DecidableEq, Repr

/-- The entries other than the working directory and the folders above it. -/
structure FileTree where
  entries : List (Location × FileEntry)

namespace Path

/-- A path with a further part. A slash at the end is not doubled. -/
def join (path part : String) : String :=
  if path.isEmpty then part
  else if path.endsWith "/" then path ++ part
  else path ++ "/" ++ part

/-- The names of a path. Empty names and single points change nothing. -/
def names (path : String) : List String :=
  (path.splitOn "/").filter fun name => name != "" && name != "."

def isAbsolute (path : String) : Bool := path.startsWith "/"

/-- The length in bytes from which on a path is refused. -/
def limit : Nat := 4096

/-- The length in bytes up to which a name is looked up. -/
def nameLimit : Nat := 255

end Path

namespace FileTree

def empty : FileTree := ⟨[]⟩

def entry? (t : FileTree) (loc : Location) : Option FileEntry :=
  if loc.names.isEmpty then some .folder else t.entries.lookup loc

def set (t : FileTree) (loc : Location) (e : FileEntry) : FileTree :=
  ⟨(loc, e) :: t.entries.filter fun entry => entry.1 != loc⟩

/-- Make a folder unless something is there. -/
def addFolder (t : FileTree) (loc : Location) : FileTree :=
  if (t.entry? loc).isSome then t else t.set loc .folder

/-- Go down from a location and make the folders that are missing on the way. -/
def pave (t : FileTree) (loc : Location) : List String → FileTree × Location
  | [] => (t, loc)
  | name :: names =>
    if name = ".." then t.pave loc.parent names
    else (t.addFolder (loc.child name)).pave (loc.child name) names

/-- Make a folder and the folders on the way to it. -/
def makeFolder (t : FileTree) (path : String) : FileTree := (t.pave .start (Path.names path)).1

/-- Write a file and make the folders on the way to it. -/
def write (t : FileTree) (path : String) (content : Bytes) : FileTree :=
  let names := Path.names path
  let (t, loc) := t.pave .start names.dropLast
  t.set (loc.child (names.getLastD "")) (.file content)

/-- Go down from a location. -/
def walk (t : FileTree) (loc : Location) : List String → Except SystemError Location
  | [] => .ok loc
  | name :: names =>
    match t.entry? loc with
    | none => .error .noEntry
    | some (.file _) => .error .notDirectory
    | some .folder =>
      if name = ".." then t.walk loc.parent names
      else if Path.nameLimit < name.utf8ByteSize then .error .nameTooLong
      else if (t.entry? (loc.child name)).isNone then .error .noEntry
      else t.walk (loc.child name) names

/-- The location of a path. Nothing is known of absolute paths. -/
def locate (t : FileTree) (path : String) : Except IoError Location :=
  if path.toList.contains '\x00' then
    .error (.described .invalidInput "file name contained an unexpected NUL byte")
  else if Path.limit ≤ path.utf8ByteSize then .error (.system .nameTooLong)
  else if path.isEmpty || Path.isAbsolute path then .error (.system .noEntry)
  else (t.walk .start (Path.names path)).mapError .system

/-- Remove an entry and all below it. -/
def remove (t : FileTree) (path : String) : FileTree :=
  match t.locate path with
  | .ok loc => ⟨t.entries.filter fun entry => !loc.covers entry.1⟩
  | .error _ => t

/-- The content of a file as a text. -/
def readText (t : FileTree) (path : String) : Except IoError String := do
  match t.entry? (← t.locate path) with
  | some (.file content) =>
    match Bytes.toText? content with
    | some text => return text
    | none => throw (.described .invalidData "stream did not contain valid UTF-8")
  | some .folder => throw (.system .isDirectory)
  | none => throw (.system .noEntry)

/-- The number of entries in a folder. -/
def countEntries (t : FileTree) (path : String) : Except IoError Nat := do
  let loc ← t.locate path
  match t.entry? loc with
  | some .folder =>
    return t.entries.countP fun entry => entry.1.parent == loc
  | some (.file _) => throw (.system .notDirectory)
  | none => throw (.system .noEntry)

end FileTree
end Telemetry

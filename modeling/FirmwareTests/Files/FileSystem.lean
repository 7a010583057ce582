import FirmwareTests.Files.Fault
import FirmwareTests.Text.Segments
import FirmwareTests.Text.Utf8

/-!
# File systems

A path is kept as it is written; nothing is normalised. Joining puts one slash between
the parts unless there is one, and an absolute second part replaces the first. The
components of a path are what a walk through directories follows.

A file system holds directories and regular files by location, the names from the root
on. A path is followed name by name: whatever is followed further has to be a
directory, and the last name need not exist. Operations name the paths they were given
in their faults.

Links, and permissions other than the one to execute a file, are outside: each location
has an entry of its own, and every entry can be read and replaced. So are faults of the
device: what can be opened is read and written to its end.
-/

namespace FirmwareTests
namespace Files

/-! ### Paths -/

def isAbsolute (path : String) : Bool :=
  path.toList.head? == some '/'

/-- Whether a path ends with a slash, and so means a directory. -/
def endsWithSlash (path : String) : Bool :=
  path.toList.getLast? == some '/'

/-- The path of a part seen from a base. -/
def join (base part : String) : String :=
  if isAbsolute part then part
  else if base = "" || endsWithSlash base then base ++ part
  else base ++ "/" ++ part

/-- The components of a path. A slash at the end asks for a directory, as a final dot
would. -/
def components (path : String) : List String :=
  let parts := (Text.segments '/' path.toList).filter (· ≠ [])
  parts.map String.ofList ++ if endsWithSlash path then ["."] else []

/-! ### Entries -/

abbrev Location := List String

/-- What can stand at a location. -/
inductive Entry where
  | directory
  | file (content : List UInt8) (executable : Bool)
  deriving DecidableEq, Repr

/-- A file system, and the location that relative paths start from. -/
structure FileSystem where
  entries : List (Location × Entry)
  current : Location
  deriving DecidableEq, Repr

namespace FileSystem

def empty : FileSystem :=
  ⟨[], []⟩

/-- What stands at a location. The root is always a directory. -/
def entryAt? (fs : FileSystem) (location : Location) : Option Entry :=
  if location = [] then some .directory
  else (fs.entries.find? fun e => e.1 == location).map Prod.snd

def erase (fs : FileSystem) (location : Location) : FileSystem :=
  { fs with entries := fs.entries.filter fun e => e.1 != location }

/-- The file system with an entry at a location, in place of what stood there. -/
def put (fs : FileSystem) (location : Location) (entry : Entry) : FileSystem :=
  { fs with entries := (location, entry) :: (fs.erase location).entries }

theorem entryAt?_put_self (fs : FileSystem) {location : Location} (h : location ≠ [])
    (entry : Entry) : (fs.put location entry).entryAt? location = some entry := by
  simp [entryAt?, put, h]

theorem entryAt?_erase_of_ne (fs : FileSystem) {location other : Location} (h : other ≠ location) :
    (fs.erase location).entryAt? other = fs.entryAt? other := by
  have hfind : (fs.entries.filter fun e => e.1 != location).find? (fun e => e.1 == other)
      = fs.entries.find? fun e => e.1 == other := by
    rw [List.find?_filter]
    congr 1
    funext e
    by_cases he : e.1 = other <;> simp_all
  simp [entryAt?, erase, hfind]

theorem entryAt?_put_of_ne (fs : FileSystem) {location other : Location} (h : other ≠ location)
    (entry : Entry) : (fs.put location entry).entryAt? other = fs.entryAt? other := by
  rw [← fs.entryAt?_erase_of_ne h]
  simp [entryAt?, put, Ne.symm h]

/-- The longest name, and the longest path, in bytes. -/
def maxNameLength : Nat := 255

def maxPathLength : Nat := 4095

def follow (fs : FileSystem) (here : Location) (name : String) : Except Fault Location :=
  match fs.entryAt? here with
  | none => .error .notFound
  | some (.file _ _) => .error .notADirectory
  | some .directory =>
    if name = "." then .ok here
    else if name = ".." then .ok here.dropLast
    else if maxNameLength < Text.byteLength name.toList then .error .nameTooLong
    else .ok (here ++ [name])

def resolve (fs : FileSystem) (path : String) : Except Fault Location :=
  if path.toList.contains '\x00' then .error .nulInName
  else if path = "" then .error .notFound
  else if maxPathLength < Text.byteLength path.toList then .error .nameTooLong
  else (components path).foldlM fs.follow (if isAbsolute path then [] else fs.current)

def lookup (fs : FileSystem) (path : String) : Except Fault Entry := do
  match fs.entryAt? (← fs.resolve path) with
  | none => .error .notFound
  | some entry => .ok entry

def isFile (fs : FileSystem) (path : String) : Bool :=
  match fs.lookup path with
  | .ok (.file _ _) => true
  | _ => false

def shown (path : String) : String :=
  "`" ++ path ++ "`"

/-- The bytes of a file. A directory opens, but cannot be read. -/
def read (fs : FileSystem) (path : String) : Except Fault (List UInt8) := do
  match ← (fs.lookup path).mapError (·.during ("failed to open file " ++ shown path)) with
  | .directory => .error (Fault.isADirectory.during ("failed to read from file " ++ shown path))
  | .file content _ => .ok content

def readText (fs : FileSystem) (path : String) : Except Fault (List Char) := do
  match Text.ofBytes? (← fs.read path) with
  | some text => .ok text
  | none => .error (Fault.notText.during ("failed to read from file " ++ shown path))

/-- Puts a regular file at a path, in place of another one if there is one. -/
def putFile (fs : FileSystem) (path : String) (content : List UInt8) (executable : Bool) :
    Except Fault FileSystem := do
  let location ← fs.resolve path
  match fs.entryAt? location with
  | some .directory => .error .isADirectory
  | _ => .ok (fs.put location (.file content executable))

/-- Copies a regular file, together with the permission to execute it. The target is
emptied before the source is read, so a file that is copied onto itself is lost. -/
def copy (fs : FileSystem) (source target : String) : Except Fault FileSystem :=
  Except.mapError
    (·.during ("failed to copy file from " ++ shown source ++ " to " ++ shown target)) do
      match ← fs.lookup source with
      | .directory => .error .notRegular
      | .file content executable =>
        let old ← fs.resolve source
        let new ← fs.resolve target
        fs.putFile target (if old = new then [] else content) executable

/-- Moves a regular file, in place of another one if there is one. A file that is moved
onto itself stays. -/
def move (fs : FileSystem) (source target : String) : Except Fault FileSystem :=
  Except.mapError
    (·.during ("failed to rename file from " ++ shown source ++ " to " ++ shown target)) do
      match ← fs.lookup source with
      | .directory => .error .isADirectory
      | .file content executable =>
        let moved ← fs.putFile target content executable
        let old ← fs.resolve source
        let new ← fs.resolve target
        return if old = new then fs else moved.erase old

def remove (fs : FileSystem) (path : String) : Except Fault FileSystem :=
  Except.mapError (·.during ("failed to remove file " ++ shown path)) do
    let location ← fs.resolve path
    match fs.entryAt? location with
    | none => .error .notFound
    | some .directory => .error .isADirectory
    | some (.file _ _) => .ok (fs.erase location)

/-- Writes a file in place. A file that exists stays as executable as it is. -/
def write (fs : FileSystem) (path : String) (content : List UInt8) :
    Except Fault FileSystem := do
  match fs.entryAt? (← fs.resolve path) with
  | some (.file _ executable) => fs.putFile path content executable
  | _ => fs.putFile path content false

/-- The file system with a directory at a location and at every location on the way. -/
def makeDirectories (fs : FileSystem) (location : Location) : FileSystem :=
  let ways := (List.range location.length).map fun n => location.take (n + 1)
  ways.foldl (fun fs here =>
    if fs.entryAt? here = some .directory then fs else fs.put here .directory) fs

def removeAll (fs : FileSystem) (location : Location) : FileSystem :=
  { fs with entries := fs.entries.filter fun e => !location.isPrefixOf e.1 }

/-- Everything below a location, by the names that lead there from it. -/
def below (fs : FileSystem) (location : Location) : List (Location × Entry) :=
  fs.entries.filterMap fun (here, entry) =>
    if location.isPrefixOf here && here != location then
      some (here.drop location.length, entry)
    else none

end FileSystem

end Files
end FirmwareTests

import ApiTree.Disk.FilePath
import ApiTree.Entries
import ApiTree.Failure
import ApiTree.Text.Literal

/-!
# Files and directories

The part of a file system that a run sees, as a value: every known location with the file or the
directory that stands there. A location is the list of names that lead to it from the root. Reading
and writing are functions on this value; nothing else remembers anything.
-/

set_option autoImplicit false

namespace ApiTree

/-- What stands at a location. -/
inductive DiskEntry where
  | file (content : ByteArray)
  | directory
  deriving Inhabited

/-- The entry is a file with the given content. -/
def DiskEntry.holds (content : ByteArray) : DiskEntry → Bool
  | .file c => c.data == content.data
  | .directory => false

/-- The files and directories below the root, and the working directory. -/
structure Disk where
  home : List String
  entries : List (List String × DiskEntry)
  deriving Inhabited

namespace Disk

/-- An empty working directory. -/
def empty (home : List String) : Disk := ⟨home, []⟩

/-- What stands at a location. The root, the working directory and those above it are there. -/
def entryAt (d : Disk) (location : List String) : Option DiskEntry :=
  if location.isPrefixOf d.home then some .directory else Entries.get? location d.entries

/-- The location that names lead to from a directory. Every name but the last must lead to a
directory; `..` leads to the one above. -/
def walk (d : Disk) : List String → List String → Except Failure (List String)
  | location, [] => .ok location
  | location, name :: names =>
    match d.entryAt location with
    | none => .error .notFound
    | some (.file _) => .error .notADirectory
    | some .directory =>
      d.walk (if name = ".." then location.dropLast else location ++ [name]) names

/-- The location of a path. -/
def locate (d : Disk) (p : FilePath) : Except Failure (List String) :=
  d.walk (if p.anchor = .relative then d.home else []) p.segments

/-- What stands at a path. -/
def find (d : Disk) (p : FilePath) : Except Failure DiskEntry := do
  match d.entryAt (← d.locate p) with
  | some e => return e
  | none => throw .notFound

/-- A file stands at the path. -/
def isFile (d : Disk) (p : FilePath) : Bool := d.find p matches .ok (.file _)

/-- A directory stands at the path. -/
def isDirectory (d : Disk) (p : FilePath) : Bool := d.find p matches .ok .directory

/-- The content of a file. -/
def read (d : Disk) (p : FilePath) : Except Failure ByteArray := do
  match ← d.find p with
  | .file content => return content
  | .directory => throw .directoryInTheWay

/-- The text of a failed reading of a path. -/
def readError (p : FilePath) (f : Failure) : String :=
  let reason :=
    match f with
    | .notADirectory => "[Errno 20] Not a directory"
    | .directoryInTheWay => "[Errno 21] Is a directory"
    | _ => "[Errno 2] No such file or directory"
  reason ++ ": " ++ Text.literal p.render

/-- The location as a path that starts with `p`, when `p` leads to `base`. -/
def pathOf (p : FilePath) (base location : List String) : FilePath :=
  ⟨p.anchor, p.segments ++ location.drop base.length⟩

/-- The files below a directory, in no particular order. -/
def filesBelow (d : Disk) (p : FilePath) : List FilePath :=
  match d.locate p with
  | .error _ => []
  | .ok base =>
    (d.entries.filter fun e => (e.2 matches .file _) && base.isPrefixOf e.1 && base ≠ e.1).map
      fun e => pathOf p base e.1

/-- Make the directory at a location and those above it. A file on the way is in the way at the last
name and not a directory before it. -/
def makeDirectories (d : Disk) : List String → List String → Except Failure Disk
  | _, [] => .ok d
  | location, name :: names =>
    let location := if name = ".." then location.dropLast else location ++ [name]
    match d.entryAt location with
    | some .directory => d.makeDirectories location names
    | some (.file _) => .error (if names.isEmpty then .fileInTheWay else .notADirectory)
    | none =>
      let d := { d with entries := Entries.put location .directory d.entries }
      d.makeDirectories location names

/-- The disk with a file at the path. Missing directories are made first; the file is complete from
the moment it is there. -/
def write (d : Disk) (p : FilePath) (content : ByteArray) : Except Failure Disk := do
  let start := if p.anchor = .relative then d.home else []
  let d ← d.makeDirectories start p.parent.segments
  let location ← d.locate p
  match d.entryAt location with
  | some .directory => throw .directoryInTheWay
  | _ => return { d with entries := Entries.put location (.file content) d.entries }

/-- The disk without the file at the path, if one is there. -/
def delete (d : Disk) (p : FilePath) : Disk :=
  match d.locate p with
  | .ok location => { d with entries := Entries.erase location d.entries }
  | .error _ => d

end Disk
end ApiTree

/-
# A file system

A tree of directories and files, kept as a finite list of places with what stands there; the
empty place is the root directory and always exists.  A path is followed name by name through
directories.  Operations answer why they fail as far as callers distinguish it.
-/
import PartitionKeys.Assoc
import PartitionKeys.Bytes
import PartitionKeys.Path

namespace PartitionKeys

/-- Where something stands: the names of the directories from the root on, and its own. -/
abbrev Place := List String

/-- What can stand at a place. -/
inductive Node where
  | directory
  | file (content : Bytes)
deriving DecidableEq, Repr

/-- Why an operation on files fails. -/
inductive FileError where
  /-- Nothing is there. -/
  | notFound
  /-- Something else is in the way. -/
  | obstructed
  /-- Nothing can ever have this path. -/
  | unusable
deriving DecidableEq, Repr

/-- The places other than the root, with what stands there. -/
structure FileSystem where
  nodes : Assoc Place Node
deriving DecidableEq, Repr

namespace FileSystem

/-- The file system with a root directory only. -/
def empty : FileSystem := ⟨[]⟩

/-- What stands at a place, whether or not directories lead there. -/
def node? (fs : FileSystem) (place : Place) : Option Node :=
  if place.isEmpty then some .directory else fs.nodes.lookup place

/-- The place that names lead to from another one.  What is left behind at each name must be
a directory; at the end there may be nothing. -/
def follow (fs : FileSystem) : Place → Path → Except FileError Place
  | place, [] => .ok place
  | place, name :: rest =>
    match fs.node? place with
    | none => .error .notFound
    | some (.file _) => .error .obstructed
    | some .directory =>
      if Path.stays name then fs.follow place rest
      else if name = ".." then fs.follow place.dropLast rest
      else if Path.nameLimit < name.utf8ByteSize then .error .unusable
      else fs.follow (place ++ [name]) rest

/-- The place that a path leads to. -/
def locate (fs : FileSystem) (path : Path) : Except FileError Place :=
  if path.isUsable then fs.follow [] path else .error .unusable

/-- Whether a path leads to something. -/
def contains (fs : FileSystem) (path : Path) : Bool :=
  match fs.locate path with
  | .ok place => (fs.node? place).isSome
  | .error _ => false

/-- Puts something at a place. -/
def set (fs : FileSystem) (place : Place) (node : Node) : FileSystem :=
  ⟨fs.nodes.put place node⟩

/-- Takes away what stands at a place. -/
def erase (fs : FileSystem) (place : Place) : FileSystem := ⟨fs.nodes.erase place⟩

theorem node?_set_self (fs : FileSystem) {place : Place} (h : place ≠ []) (node : Node) :
    (fs.set place node).node? place = some node := by
  simp [node?, set, h, Assoc.lookup_put_self]

theorem node?_set_of_ne {place other : Place} (h : other ≠ place) (fs : FileSystem)
    (node : Node) : (fs.set place node).node? other = fs.node? other := by
  simp only [node?, set, Assoc.lookup_put_of_ne h]

theorem node?_erase_self (fs : FileSystem) {place : Place} (h : place ≠ []) :
    (fs.erase place).node? place = none := by
  simp [node?, erase, h, Assoc.lookup_erase_self]

theorem node?_erase_of_ne {place other : Place} (h : other ≠ place) (fs : FileSystem) :
    (fs.erase place).node? other = fs.node? other := by
  simp only [node?, erase, Assoc.lookup_erase_of_ne h]

/-- The content of the file at a place. -/
def contentAt (fs : FileSystem) (place : Place) : Except FileError Bytes :=
  match fs.node? place with
  | some (.file content) => .ok content
  | some .directory => .error .obstructed
  | none => .error .notFound

/-- The content of a file. -/
def read (fs : FileSystem) (path : Path) : Except FileError Bytes := do
  fs.contentAt (← fs.locate path)

/-- Makes a directory, if it is missing; the one that holds it must be there. -/
def makeDirectory (fs : FileSystem) (path : Path) : Except FileError FileSystem := do
  let place ← fs.locate path
  match fs.node? place with
  | none => .ok (fs.set place .directory)
  | some .directory => .ok fs
  | some (.file _) => .error .obstructed

/-- Makes a directory and those that lead to it, as far as they are missing. -/
def makeDirectories (fs : FileSystem) (path : Path) : Except FileError FileSystem :=
  (List.range path.length).foldlM (fun fs n => fs.makeDirectory (path.take (n + 1))) fs

/-- Makes a file with a content, in place of the one that is there. -/
def writeFile (fs : FileSystem) (path : Path) (content : Bytes) : Except FileError FileSystem := do
  let place ← fs.locate path
  match fs.node? place with
  | some .directory => .error .obstructed
  | _ => .ok (fs.set place (.file content))

/-- Adds a byte at the end of a file. -/
def append (fs : FileSystem) (path : Path) (byte : UInt8) : Except FileError FileSystem := do
  let place ← fs.locate path
  let content ← fs.contentAt place
  .ok (fs.set place (.file (content ++ [byte])))

/-- Moves a file to another path, over a file that is there. -/
def rename (fs : FileSystem) (source target : Path) : Except FileError FileSystem := do
  let source ← fs.locate source
  let content ← fs.contentAt source
  let target ← fs.locate target
  match fs.node? target with
  | some .directory => .error .obstructed
  | _ => .ok ((fs.erase source).set target (.file content))

/-- Removes a file. -/
def removeFile (fs : FileSystem) (path : Path) : Except FileError FileSystem := do
  let place ← fs.locate path
  let _ ← fs.contentAt place
  .ok (fs.erase place)

end FileSystem

end PartitionKeys

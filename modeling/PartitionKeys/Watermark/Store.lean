/-
# Keeping the watermark over a restart

A store answers the watermark that was persisted last, or a default.  The store in memory
counts its calls.  The store in a file writes the eight bytes of the number to a temporary
file beside the target, which then takes the target's place in one step: whatever happens
before that step, the target still holds what it held.
-/
import PartitionKeys.Watermark.Basic
import PartitionKeys.FileSystem

namespace PartitionKeys

/-- What a store was doing when the file system refused. -/
inductive StoreAction where
  | read
  | createDirectory
  | create
  | write
  | rename
  | delete
deriving DecidableEq, Repr

/-- The words for an action. -/
def StoreAction.name : StoreAction → String
  | .read => "read"
  | .createDirectory => "create directory for"
  | .create => "create"
  | .write => "write"
  | .rename => "rename"
  | .delete => "delete"

/-- Why a store fails. -/
inductive StoreError where
  | io (action : StoreAction)
  /-- The file does not hold eight bytes but this many. -/
  | corrupt (length : Nat)
deriving DecidableEq, Repr

/-- The text of a store's failure. -/
def StoreError.message : StoreError → String
  | .io action => "failed to " ++ action.name ++ " watermark file"
  | .corrupt length => "watermark file holds " ++ toString length ++ " bytes, expected 8"

/-- A store in memory, with the numbers of its calls. -/
structure MemoryStore where
  value : Option Binary64 := none
  persistCount : Nat := 0
  deleteCount : Nat := 0
deriving DecidableEq, Repr

namespace MemoryStore

/-- The persisted watermark, or a default. -/
def load (s : MemoryStore) (default : Binary64) : Binary64 := s.value.getD default

/-- Persists a watermark. -/
def persist (s : MemoryStore) (time : Binary64) : MemoryStore :=
  { s with value := some time, persistCount := s.persistCount + 1 }

/-- Forgets the watermark. -/
def delete (s : MemoryStore) : MemoryStore :=
  { s with value := none, deleteCount := s.deleteCount + 1 }

theorem load_persist (s : MemoryStore) (time default : Binary64) :
    (s.persist time).load default = time := rfl

theorem load_delete (s : MemoryStore) (default : Binary64) : s.delete.load default = default := rfl

end MemoryStore

/-- A store in a file. -/
structure FileStore where
  path : Path
deriving DecidableEq, Repr

namespace FileStore

/-- The temporary file: its path has an ending more than the target's. -/
def temporary (s : FileStore) : Path := s.path.withEnding ".tmp"

/-- The persisted watermark, or a default if there is no file. -/
def load (s : FileStore) (fs : FileSystem) (default : Binary64) : Except StoreError Binary64 :=
  match fs.read s.path with
  | .error .notFound => .ok default
  | .error _ => .error (.io .read)
  | .ok content =>
    match Binary64.ofBytes? content with
    | some time => .ok time
    | none => .error (.corrupt content.length)

/-- One step of persisting. -/
inductive Step where
  /-- Makes the directory that so many names on the way to the target lead to. -/
  | makeDirectory (names : Nat)
  | createTemporary
  | append (byte : UInt8)
  | rename
deriving DecidableEq, Repr

/-- What a step does to the file system, or how it fails. -/
def Step.run (s : FileStore) (fs : FileSystem) : Step → Except StoreError FileSystem
  | .makeDirectory names =>
    if s.path.parent.isUsable then
      (fs.makeDirectory (s.path.parent.take names)).mapError fun _ => .io .createDirectory
    else .error (.io .createDirectory)
  | .createTemporary => (fs.writeFile s.temporary []).mapError fun _ => .io .create
  | .append byte => (fs.append s.temporary byte).mapError fun _ => .io .write
  | .rename => (fs.rename s.temporary s.path).mapError fun _ => .io .rename

/-- Runs steps up to the first that fails; what was done before it stays done. -/
def runSteps (s : FileStore) : List Step → FileSystem → Except StoreError Unit × FileSystem
  | [], fs => (.ok (), fs)
  | step :: rest, fs =>
    match step.run s fs with
    | .ok fs => s.runSteps rest fs
    | .error e => (.error e, fs)

theorem runSteps_append (s : FileStore) (first rest : List Step) (fs : FileSystem) :
    s.runSteps (first ++ rest) fs =
      match s.runSteps first fs with
      | (.ok (), fs) => s.runSteps rest fs
      | (.error e, fs) => (.error e, fs) := by
  induction first generalizing fs with
  | nil => rfl
  | cons step first ih =>
    simp only [List.cons_append, runSteps]
    split
    · exact ih _
    · rfl

/-- The steps that persist a watermark. -/
def persistSteps (s : FileStore) (time : Binary64) : List Step :=
  (List.range s.path.parent.length).map (fun n => .makeDirectory (n + 1))
    ++ .createTemporary :: time.toBytes.map .append ++ [.rename]

/-- Persists a watermark. -/
def persist (s : FileStore) (fs : FileSystem) (time : Binary64) :
    Except StoreError Unit × FileSystem :=
  s.runSteps (s.persistSteps time) fs

/-- Removes the file, if there is one. -/
def delete (s : FileStore) (fs : FileSystem) : Except StoreError Unit × FileSystem :=
  match fs.removeFile s.path with
  | .ok fs => (.ok (), fs)
  | .error .notFound => (.ok (), fs)
  | .error _ => (.error (.io .delete), fs)

end FileStore

/-- Where a partition keeps its watermark. -/
inductive StoreMedium where
  | memory (store : MemoryStore)
  | file (store : FileStore) (files : FileSystem)
deriving DecidableEq, Repr

/-- A partition's store.  Each of its three calls may be out of order; such a call fails as if
the file were corrupt and does nothing else. -/
structure WatermarkStore where
  medium : StoreMedium
  loadFails : Bool := false
  persistFails : Bool := false
  deleteFails : Bool := false
deriving DecidableEq, Repr

namespace WatermarkStore

/-- The failure of a call that is out of order. -/
def outOfOrder : StoreError := .corrupt 3

/-- The persisted watermark, or a default. -/
def load (s : WatermarkStore) (default : Binary64) : Except StoreError Binary64 :=
  if s.loadFails then .error outOfOrder
  else
    match s.medium with
    | .memory store => .ok (store.load default)
    | .file store files => store.load files default

/-- Persists a watermark. -/
def persist (s : WatermarkStore) (time : Binary64) : Except StoreError Unit × WatermarkStore :=
  if s.persistFails then (.error outOfOrder, s)
  else
    match s.medium with
    | .memory store => (.ok (), { s with medium := .memory (store.persist time) })
    | .file store files =>
      let (result, files) := store.persist files time
      (result, { s with medium := .file store files })

/-- Forgets the persisted watermark; there need not be one. -/
def delete (s : WatermarkStore) : Except StoreError Unit × WatermarkStore :=
  if s.deleteFails then (.error outOfOrder, s)
  else
    match s.medium with
    | .memory store => (.ok (), { s with medium := .memory store.delete })
    | .file store files =>
      let (result, files) := store.delete files
      (result, { s with medium := .file store files })

end WatermarkStore

end PartitionKeys

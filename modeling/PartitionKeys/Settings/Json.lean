/-
# Settings as JSON

Settings are an object with one field for each setting, or an array of the settings in the
same order.  The fields from the comparison columns on may be missing; in an array they may
be missing at the end.  Settings that were read are checked at once.
-/
import PartitionKeys.Settings.Basic
import PartitionKeys.Key.Json

namespace PartitionKeys

open Json

/-- The kinds of tables by name. -/
def TableKind.byName : List (String × TableKind) :=
  [TableKind.dedup, .upsert].map fun kind => (kind.name, kind)

/-- The kind of a table. -/
def TableKind.read : Reader TableKind := readAlternative TableKind.byName

/-- Why settings could not be taken from a document. -/
inductive DocumentError where
  /-- The file could not be read as text. -/
  | unreadable
  /-- The text is no document of settings. -/
  | unparsable (fault : Fault)
  /-- The settings are refused. -/
  | refused (error : SettingsError)
deriving DecidableEq, Repr

namespace Settings

/-- The settings that have been read so far. -/
structure Draft where
  table : Option String := none
  partition : Option UInt32 := none
  kind : Option TableKind := none
  keyColumns : Option (List String) := none
  comparisonColumns : Option (List String) := none
  ttl : Option Binary64 := none
  timeColumn : Option (Option String) := none
  directory : Option (Option String) := none
  hash : Option KeyHash := none

/-- The number of a partition. -/
def readPartition : Reader UInt32 := fun text => do
  let (n, rest) ← readInteger 0 0xffffffff text
  .ok (UInt32.ofNat n.toNat, rest)

/-- A list of column names. -/
def readColumns : Reader (List String) := readArray readText

/-- Takes the value of a field that has not occurred before. -/
def readOnce {α σ : Type} (name : String) (before : Option α) (value : Reader α)
    (set : α → σ) : Reader σ := fun text =>
  match before with
  | some _ => .error (.mismatch (.duplicateField name))
  | none => do
    let text ← skipColon text
    let (x, rest) ← value text
    .ok (set x, rest)

/-- Takes the next field; unknown fields are passed over. -/
def readField (name : String) (d : Draft) : Reader Draft := fun text =>
  match name with
  | "table_name_with_type" =>
    readOnce name d.table readText (fun x => { d with table := some x }) text
  | "partition_id" =>
    readOnce name d.partition readPartition (fun x => { d with partition := some x }) text
  | "mode" => readOnce name d.kind TableKind.read (fun x => { d with kind := some x }) text
  | "primary_key_columns" =>
    readOnce name d.keyColumns readColumns (fun x => { d with keyColumns := some x }) text
  | "comparison_columns" =>
    readOnce name d.comparisonColumns readColumns
      (fun x => { d with comparisonColumns := some x }) text
  | "metadata_ttl" =>
    readOnce name d.ttl readBinary64 (fun x => { d with ttl := some x }) text
  | "time_column" =>
    readOnce name d.timeColumn (readOptional readText)
      (fun x => { d with timeColumn := some x }) text
  | "table_index_dir" =>
    readOnce name d.directory (readOptional readText)
      (fun x => { d with directory := some x }) text
  | "hash_function" =>
    readOnce name d.hash KeyHash.read (fun x => { d with hash := some x }) text
  | _ => do
    let text ← skipColon text
    let rest ← skipValue text
    .ok (d, rest)

/-- A field that must not be missing. -/
def required {α : Type} (name : String) : Option α → Except Fault α
  | some x => .ok x
  | none => .error (.mismatch (.missingField name))

/-- The settings of an object whose fields have all been read. -/
def Draft.complete (d : Draft) : Except Fault Settings := do
  let table ← required "table_name_with_type" d.table
  let partition ← required "partition_id" d.partition
  let kind ← required "mode" d.kind
  let keyColumns ← required "primary_key_columns" d.keyColumns
  .ok {
    table, partition, kind, keyColumns
    comparisonColumns := d.comparisonColumns.getD []
    ttl := d.ttl.getD Binary64.zero
    timeColumn := d.timeColumn.getD none
    directory := d.directory.getD none
    hash := d.hash.getD .whole }

/-- The element of an array that must be there; so many came before it. -/
def requiredElement {α : Type} (before : Nat) (element : Reader α) : Reader α := fun text => do
  match ← nextElement? (before == 0) text with
  | some rest => element rest
  | none => .error (.mismatch (.invalidLength before))

/-- The element of an array that may be missing at the end. -/
def optionalElement {α : Type} (default : α) (element : Reader α) : Reader α := fun text => do
  match ← nextElement? false text with
  | some rest => element rest
  | none => .ok (default, text)

/-- The settings of an array, after its opening bracket. -/
def readElementwise : Reader Settings := fun text => do
  let (table, text) ← requiredElement 0 readText text
  let (partition, text) ← requiredElement 1 readPartition text
  let (kind, text) ← requiredElement 2 TableKind.read text
  let (keyColumns, text) ← requiredElement 3 readColumns text
  let (comparisonColumns, text) ← optionalElement [] readColumns text
  let (ttl, text) ← optionalElement Binary64.zero readBinary64 text
  let (timeColumn, text) ← optionalElement none (readOptional readText) text
  let (directory, text) ← optionalElement none (readOptional readText) text
  let (hash, text) ← optionalElement .whole KeyHash.read text
  let rest ← closeArray text
  .ok ({ table, partition, kind, keyColumns, comparisonColumns, ttl, timeColumn, directory,
         hash }, rest)

/-- Settings as they stand in a text, unchecked. -/
def read : Reader Settings := fun text =>
  match skipBlank text with
  | '[' :: rest => readElementwise rest
  | '\x7b' :: rest => do
    let (draft, rest) ← foldFields readField {} rest
    let settings ← draft.complete
    let rest ← closeObject rest
    .ok (settings, rest)
  | other => .error (otherKind other)

/-- The settings of a document, checked. -/
def ofDocument (document : String) : Except DocumentError Settings :=
  match readWhole read document with
  | .error fault => .error (.unparsable fault)
  | .ok settings => settings.checked.mapError .refused

/-- The settings of a file, given its bytes if there is such a file; they must be UTF-8. -/
def ofFile (content : Option Bytes) : Except DocumentError Settings :=
  match content.bind fun bytes => String.fromUTF8? ⟨bytes.toArray⟩ with
  | none => .error .unreadable
  | some document => ofDocument document

/-- The document of settings: every field in order. -/
def toDocument (s : Settings) : String :=
  String.ofList (writeObject [
    ("table_name_with_type", writeText s.table),
    ("partition_id", writeInt s.partition.toNat),
    ("mode", writeText s.kind.name),
    ("primary_key_columns", writeArray (s.keyColumns.map writeText)),
    ("comparison_columns", writeArray (s.comparisonColumns.map writeText)),
    ("metadata_ttl", writeBinary64 s.ttl),
    ("time_column", writeOptional writeText s.timeColumn),
    ("table_index_dir", writeOptional writeText s.directory),
    ("hash_function", writeText s.hash.name)])

end Settings

end PartitionKeys

/-
# Segments

A segment is a batch of records together with statistics on its columns.  Segments are told
apart by instance, not by name: a segment that is loaded again under the same name is another
one.  The records of a segment are read as a stream that can fail at the start or at any
record.
-/
import PartitionKeys.Key.Basic
import PartitionKeys.Version.Basic

namespace PartitionKeys

/-- The identity of a segment: the number of its instance; the name is for display. -/
structure SegmentId where
  number : Nat
  name : String
deriving DecidableEq, Repr

/-- Whether two identities stand for the same instance. -/
def SegmentId.same (a b : SegmentId) : Bool := a.number == b.number

/-- How a segment is stored. -/
inductive SegmentKind where
  /-- Sealed and fully built. -/
  | immutable
  /-- Still taking in records. -/
  | mutable
  /-- Without documents. -/
  | empty
deriving DecidableEq, Repr

/-- The name of a kind of segment. -/
def SegmentKind.name : SegmentKind → String
  | .immutable => "immutable"
  | .mutable => "mutable"
  | .empty => "empty"

/-- A record as far as its key is concerned. -/
structure Record where
  key : PrimaryKey
  /-- The position in the segment. -/
  doc : UInt32
  version : Version
deriving DecidableEq, Repr

/-- Why a segment could not be read. -/
inductive SegmentError where
  | truncatedColumn (segment : String)
  | missingColumn (segment column : String)
  | nonNumericMax (segment column : String)
  | malformed (segment : String) (doc : UInt32) (reason : String)
deriving DecidableEq, Repr

/-- The text of a segment's failure. -/
def SegmentError.message : SegmentError → String
  | .truncatedColumn segment =>
    "failed to read records of segment " ++ segment ++ ": truncated column"
  | .missingColumn segment column =>
    "segment " ++ segment ++ " has no metadata for column '" ++ column ++ "'"
  | .nonNumericMax segment column =>
    "column '" ++ column ++ "' of segment " ++ segment ++ " has no numeric max value"
  | .malformed segment doc reason =>
    "segment " ++ segment ++ " doc " ++ toString doc.toNat ++ " is malformed: " ++ reason

/-- The largest value of each column for which there is a statistic; a statistic may lack its
value. -/
abbrev ColumnMaxima := Assoc String (Option Value)

namespace ColumnMaxima

/-- Takes a value of a column into account.  The first value stays unless a later one is
larger; a value of another type is never larger. -/
def observe (column : String) (value : Value) : ColumnMaxima → ColumnMaxima
  | [] => [(column, some value)]
  | (other, largest) :: rest =>
    if other = column then
      match largest with
      | none => (other, some value) :: rest
      | some old =>
        (other, some (if value.compare? old = some .gt then value else old)) :: rest
    else (other, largest) :: observe column value rest

/-- Takes all values of a version into account. -/
def observeVersion (maxima : ColumnMaxima) (version : Version) : ColumnMaxima :=
  version.columns.foldl (fun maxima (column, cell) =>
    match cell.value? with
    | some value => observe column value maxima
    | none => maxima) maxima

/-- The maxima of a list of records. -/
def ofRecords (records : List Record) : ColumnMaxima :=
  records.foldl (fun maxima record => observeVersion maxima record.version) []

end ColumnMaxima

/-- Which columns a reader must provide for each record. -/
structure ReadRequest where
  keyColumns : List String
  comparisonColumns : List String
deriving DecidableEq, Repr

/-- A segment. -/
structure Segment where
  id : SegmentId
  kind : SegmentKind := .immutable
  /-- The statistics on its columns. -/
  maxima : ColumnMaxima
  /-- Its records, or why the stream of records cannot be opened or goes wrong at a place. -/
  stream : Except SegmentError (List (Except SegmentError Record))

namespace Segment

/-- The name of a segment. -/
def name (s : Segment) : String := s.id.name

/-- The segment of a list of records, with the statistics that follow from them. -/
def ofRecords (id : SegmentId) (kind : SegmentKind) (records : List Record) : Segment where
  id
  kind
  maxima := ColumnMaxima.ofRecords records
  stream := .ok (records.map .ok)

/-- The segment with other statistics. -/
def withMaxima (s : Segment) (maxima : ColumnMaxima) : Segment := { s with maxima }

/-- The segment with a failure in place of one record. -/
def failingAt (s : Segment) (position : Nat) (error : SegmentError) : Segment :=
  { s with stream := s.stream.map fun records => records.set position (.error error) }

/-- The segment whose stream cannot be opened. -/
def unopenable (s : Segment) (error : SegmentError) : Segment := { s with stream := .error error }

/-- The records up to the first failure. -/
def collect : List (Except SegmentError Record) → Except SegmentError (List Record)
  | [] => .ok []
  | .error e :: _ => .error e
  | .ok record :: rest => do
    let records ← collect rest
    .ok (record :: records)

theorem collect_map_ok (records : List Record) : collect (records.map .ok) = .ok records := by
  induction records with
  | nil => rfl
  | cons record rest ih => rw [List.map_cons, collect, ih]; rfl

/-- All records of a segment, or the first failure.  A segment has every column at hand, so
the request narrows nothing down. -/
def read (s : Segment) (_request : ReadRequest) : Except SegmentError (List Record) := do
  let stream ← s.stream
  collect stream

/-- The largest time of a segment by the statistics on its time column. -/
def maxTime (s : Segment) (column : String) : Except SegmentError Binary64 :=
  match s.maxima.lookup column with
  | none => .error (.missingColumn s.name column)
  | some largest =>
    match largest.bind Value.time? with
    | some time => .ok time
    | none => .error (.nonNumericMax s.name column)

end Segment

end PartitionKeys

/-
# Entries of an index and what becomes of them

An index holds, for each key, where the current record is, its version and its time.  When a
record is offered for a key, `resolve` decides from the present entry, the proposed one and
the terms of the offer what the index must do.
-/
import PartitionKeys.Segment
import PartitionKeys.Version.Sealed
import PartitionKeys.Watermark.Basic

namespace PartitionKeys

/-- Where a record is: a document of a segment. -/
structure Location where
  segment : SegmentId
  doc : UInt32
deriving DecidableEq, Repr

namespace Location

/-- Whether a location is in a segment. -/
def isIn (l : Location) (segment : SegmentId) : Bool := l.segment.same segment

/-- Whether two locations are the same document of the same instance of a segment. -/
def same (l m : Location) : Bool := l.doc == m.doc && l.isIn m.segment

end Location

/-- What an index holds for a key. -/
structure Entry where
  location : Location
  version : Version
  /-- The time that decides when the entry expires. -/
  time : Binary64
deriving DecidableEq, Repr

namespace Entry

/-- The time of a version: what its time column holds, or the unset watermark. -/
def timeOf (version : Version) (timeColumn : Option String) : Binary64 :=
  (timeColumn.bind version.time?).getD Watermark.unset.time

/-- The entry of a record at a location. -/
def of (location : Location) (version : Version) (timeColumn : Option String) : Entry :=
  ⟨location, version, timeOf version timeColumn⟩

end Entry

/-- On what terms a record is offered. -/
structure Terms where
  kind : TableKind
  rule : ComparisonRule
  comparisonColumns : List String
  timeColumn : Option String
  /-- The segment that is being replaced: what it owns yields to the offered record. -/
  replacing : Option SegmentId
  /-- Entries below this time count as absent. -/
  floor : Option Binary64
deriving DecidableEq, Repr

namespace Terms

/-- Whether an entry counts as absent. -/
def isStale (t : Terms) (entry : Entry) : Bool :=
  match t.floor with
  | some floor => decide (entry.time < floor)
  | none => false

/-- Whether an entry belongs to the segment that is being replaced. -/
def ownedByReplaced (t : Terms) (entry : Entry) : Bool :=
  match t.replacing with
  | some segment => entry.location.isIn segment
  | none => false

end Terms

/-- What an index has done with an offered record. -/
inductive Outcome where
  /-- The key was absent, or its entry was stale. -/
  | inserted
  /-- The record has taken the place of another one. -/
  | superseded
  /-- The present record stays. -/
  | rejected
deriving DecidableEq, Repr

/-- The name of an outcome. -/
def Outcome.name : Outcome → String
  | .inserted => "Inserted"
  | .superseded => "Superseded"
  | .rejected => "Rejected"

/-- What an index must do with an offered record. -/
inductive Resolution where
  | insert (entry : Entry)
  | supersede (entry : Entry)
  | reject
deriving DecidableEq, Repr

namespace Resolution

/-- The outcome that a resolution leads to. -/
def outcome : Resolution → Outcome
  | .insert _ => .inserted
  | .supersede _ => .superseded
  | .reject => .rejected

/-- The entry to be held, if any. -/
def entry? : Resolution → Option Entry
  | .insert entry | .supersede entry => some entry
  | .reject => none

end Resolution

/-- Resolves an offer against a present entry that is not stale.  What the replaced segment
owns always yields; otherwise the first record of a dedup table stays, and in an upsert table
the versions decide. -/
def resolvePresent (present proposed : Entry) (t : Terms) : Except ComparisonError Resolution :=
  if t.ownedByReplaced present then .ok (.supersede proposed)
  else
    match t.kind with
    | .dedup => .ok .reject
    | .upsert => do
      match ← t.rule.decide proposed.version present.version t.comparisonColumns with
      | .reject => .ok .reject
      | .supersede version => .ok (.supersede (.of proposed.location version t.timeColumn))

/-- Resolves an offer: a record for a key without entry, or with a stale one, is inserted. -/
def resolve (present : Option Entry) (proposed : Entry) (t : Terms) :
    Except ComparisonError Resolution :=
  match present with
  | none => .ok (.insert proposed)
  | some present =>
    if t.isStale present then .ok (.insert proposed) else resolvePresent present proposed t

end PartitionKeys

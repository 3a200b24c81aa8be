/-
# An index in the order of its keys

Entries stand in a list that ascends by key.
-/
import PartitionKeys.Assoc
import PartitionKeys.Index.Entry
import PartitionKeys.Key.Hashed

namespace PartitionKeys

/-- Why an index refuses a call. -/
inductive IndexError where
  | comparison (error : ComparisonError)
  /-- The index has been closed. -/
  | closed
  /-- The resources behind the index could not be handled. -/
  | release (reason : String)
deriving DecidableEq, Repr

/-- The text of an index failure. -/
def IndexError.message : IndexError → String
  | .comparison error => error.message
  | .closed => "primary key index is closed"
  | .release reason => "failed to release primary key index: " ++ reason

/-- What an offer has done, with the entry it displaced. -/
structure Update where
  outcome : Outcome
  displaced : Option Entry
deriving DecidableEq, Repr

/-- Entries in ascending order of their keys. -/
structure SortedIndex where
  entries : Assoc IndexKey Entry := []
  closed : Bool := false
deriving DecidableEq, Repr

namespace SortedIndex

/-- The keys in ascending order. -/
def keys (i : SortedIndex) : List IndexKey := i.entries.keys

/-- The entry of a key. -/
def get? (i : SortedIndex) (key : IndexKey) : Option Entry := i.entries.lookup key

/-- The number of keys. -/
def size (i : SortedIndex) : Nat := i.entries.length

/-- Puts an entry at the place of its key. -/
def place (key : IndexKey) (entry : Entry) : Assoc IndexKey Entry → Assoc IndexKey Entry
  | [] => [(key, entry)]
  | (other, old) :: rest =>
    match compare key other with
    | .lt => (key, entry) :: (other, old) :: rest
    | .eq => (key, entry) :: rest
    | .gt => (other, old) :: place key entry rest

/-- Holds an entry under a key. -/
def set (i : SortedIndex) (key : IndexKey) (entry : Entry) : SortedIndex :=
  { i with entries := place key entry i.entries }

/-- Drops the entry of a key. -/
def erase (i : SortedIndex) (key : IndexKey) : SortedIndex :=
  { i with entries := i.entries.erase key }

theorem get?_erase_self (i : SortedIndex) (key : IndexKey) : (i.erase key).get? key = none :=
  Assoc.lookup_erase_self i.entries key

theorem get?_erase_of_ne {key other : IndexKey} (h : other ≠ key) (i : SortedIndex) :
    (i.erase key).get? other = i.get? other := Assoc.lookup_erase_of_ne h i.entries

/-- Offers an entry for a key. -/
def apply (i : SortedIndex) (key : IndexKey) (proposed : Entry) (t : Terms) :
    Except IndexError Update × SortedIndex :=
  if i.closed then (.error .closed, i)
  else
    match resolve (i.get? key) proposed t with
    | .error e => (.error (.comparison e), i)
    | .ok resolution =>
      match resolution.entry? with
      | some entry => (.ok ⟨resolution.outcome, i.get? key⟩, i.set key entry)
      | none => (.ok ⟨.rejected, none⟩, i)

/-- Puts back what a write has displaced, unless the key has been written since. -/
def restore (i : SortedIndex) (key : IndexKey) (written : Location) (previous : Option Entry) :
    Bool × SortedIndex :=
  if ((i.get? key).any fun entry => entry.location.same written) = false then (false, i)
  else
    match previous with
    | some entry => (true, i.set key entry)
    | none => (true, i.erase key)

/-- Drops a key that still has the expected location. -/
def remove (i : SortedIndex) (key : IndexKey) (expected : Location) : Bool × SortedIndex :=
  match i.get? key with
  | some entry => if entry.location.same expected then (true, i.erase key) else (false, i)
  | none => (false, i)

/-- Drops all entries below a time and answers how many those were. -/
def sweep (i : SortedIndex) (floor : Binary64) : Nat × SortedIndex :=
  let kept := i.entries.filter fun held => decide (floor ≤ held.2.time)
  (i.entries.length - kept.length, { i with entries := kept })

/-- Closes the index for offers. -/
def close (i : SortedIndex) : SortedIndex := { i with closed := true }

end SortedIndex

end PartitionKeys

/-
# The index of a partition

An index is one of two: entries in the order of their keys, or in no order.  Both do the same
with every call.  The resources behind an index can fail; which calls do is part of the index
here, so that a run is determined by its start.
-/
import PartitionKeys.Index.Unordered

namespace PartitionKeys

/-- One of the two ways to hold entries. -/
inductive Backend where
  | sorted (index : SortedIndex)
  | unordered (index : UnorderedIndex)
deriving DecidableEq, Repr

/-- An index with its failures. -/
structure KeyIndex where
  backend : Backend
  /-- The calls of `apply` that fail, counted from zero. -/
  failingApplies : List Nat := []
  /-- How many calls of `close` fail before one succeeds. -/
  failingCloses : Nat := 0
  applyCalls : Nat := 0
  closeCalls : Nat := 0
deriving DecidableEq, Repr

namespace Backend

/-- The entry of a key. -/
def get? : Backend → IndexKey → Option Entry
  | .sorted i, key => i.get? key
  | .unordered i, key => i.get? key

/-- The keys. -/
def keys : Backend → List IndexKey
  | .sorted i => i.keys
  | .unordered i => i.keys

/-- The number of keys. -/
def size : Backend → Nat
  | .sorted i => i.size
  | .unordered i => i.size

/-- Offers an entry for a key. -/
def apply (b : Backend) (key : IndexKey) (proposed : Entry) (t : Terms) :
    Except IndexError Update × Backend :=
  match b with
  | .sorted i => (i.apply key proposed t).map id .sorted
  | .unordered i => (i.apply key proposed t).map id .unordered

/-- Puts back what a write has displaced, unless the key has been written since. -/
def restore (b : Backend) (key : IndexKey) (written : Location) (previous : Option Entry) :
    Bool × Backend :=
  match b with
  | .sorted i => (i.restore key written previous).map id .sorted
  | .unordered i => (i.restore key written previous).map id .unordered

/-- Drops a key that still has the expected location. -/
def remove (b : Backend) (key : IndexKey) (expected : Location) : Bool × Backend :=
  match b with
  | .sorted i => (i.remove key expected).map id .sorted
  | .unordered i => (i.remove key expected).map id .unordered

/-- Drops all entries below a time and answers how many those were. -/
def sweep (b : Backend) (floor : Binary64) : Nat × Backend :=
  match b with
  | .sorted i => (i.sweep floor).map id .sorted
  | .unordered i => (i.sweep floor).map id .unordered

/-- Closes the index for offers. -/
def close : Backend → Backend
  | .sorted i => .sorted i.close
  | .unordered i => .unordered i.close

end Backend

namespace KeyIndex

/-- The entry of a key. -/
def get? (i : KeyIndex) (key : IndexKey) : Option Entry := i.backend.get? key

/-- The keys. -/
def keys (i : KeyIndex) : List IndexKey := i.backend.keys

/-- The number of keys. -/
def size (i : KeyIndex) : Nat := i.backend.size

/-- Offers an entry for a key; a failing call leaves the entries alone. -/
def apply (i : KeyIndex) (key : IndexKey) (proposed : Entry) (t : Terms) :
    Except IndexError Update × KeyIndex :=
  let call := i.applyCalls
  let i := { i with applyCalls := call + 1 }
  if i.failingApplies.contains call then
    (.error (.release ("apply " ++ toString call ++ " failed")), i)
  else
    let (result, backend) := i.backend.apply key proposed t
    (result, { i with backend })

/-- Puts back what a write has displaced, unless the key has been written since. -/
def restore (i : KeyIndex) (key : IndexKey) (written : Location) (previous : Option Entry) :
    Bool × KeyIndex :=
  let (restored, backend) := i.backend.restore key written previous
  (restored, { i with backend })

/-- Drops a key that still has the expected location. -/
def remove (i : KeyIndex) (key : IndexKey) (expected : Location) : Bool × KeyIndex :=
  let (removed, backend) := i.backend.remove key expected
  (removed, { i with backend })

/-- Drops all entries below a time and answers how many those were. -/
def sweep (i : KeyIndex) (floor : Binary64) : Nat × KeyIndex :=
  let (removed, backend) := i.backend.sweep floor
  (removed, { i with backend })

/-- Closes the index; a failing call does not. -/
def close (i : KeyIndex) : Except IndexError Unit × KeyIndex :=
  let call := i.closeCalls
  let i := { i with closeCalls := call + 1 }
  if call < i.failingCloses then (.error (.release ("close " ++ toString call ++ " failed")), i)
  else (.ok (), { i with backend := i.backend.close })

end KeyIndex

end PartitionKeys

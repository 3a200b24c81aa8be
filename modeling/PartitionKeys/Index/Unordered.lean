/-
# An index without order

Entries stand in no particular order.  Each call works on the slot of its key: a vacant slot
takes any offer, an occupied one asks for a resolution.
-/
import PartitionKeys.Index.Sorted

namespace PartitionKeys

/-- Entries in no particular order, each key at most once. -/
structure UnorderedIndex where
  entries : Assoc IndexKey Entry := []
  closed : Bool := false
deriving DecidableEq, Repr

namespace UnorderedIndex

/-- The keys, in no particular order. -/
def keys (i : UnorderedIndex) : List IndexKey := i.entries.keys

/-- The entry of a key. -/
def get? (i : UnorderedIndex) (key : IndexKey) : Option Entry := i.entries.lookup key

/-- The number of keys. -/
def size (i : UnorderedIndex) : Nat := i.entries.length

/-- Fills a vacant slot. -/
def fill (i : UnorderedIndex) (key : IndexKey) (entry : Entry) : UnorderedIndex :=
  { i with entries := (key, entry) :: i.entries }

/-- Changes the entry of an occupied slot. -/
def exchange (i : UnorderedIndex) (key : IndexKey) (entry : Entry) : UnorderedIndex :=
  { i with entries := i.entries.map fun held => if held.1 = key then (key, entry) else held }

/-- Empties a slot. -/
def vacate (i : UnorderedIndex) (key : IndexKey) : UnorderedIndex :=
  { i with entries := i.entries.erase key }

theorem get?_fill_self (i : UnorderedIndex) (key : IndexKey) (entry : Entry) :
    (i.fill key entry).get? key = some entry := List.lookup_cons_self

theorem get?_fill_of_ne {key other : IndexKey} (h : other ≠ key) (i : UnorderedIndex)
    (entry : Entry) : (i.fill key entry).get? other = i.get? other :=
  Assoc.lookup_cons_of_ne h entry i.entries

theorem keys_exchange (i : UnorderedIndex) (key : IndexKey) (entry : Entry) :
    (i.exchange key entry).keys = i.keys := by
  simp only [keys, exchange, Assoc.keys, List.map_map]
  refine List.map_congr_left fun held _ => ?_
  by_cases h : held.1 = key
  · simp [h]
  · simp [h]

theorem get?_exchange_of_ne {key other : IndexKey} (h : other ≠ key) (i : UnorderedIndex)
    (entry : Entry) : (i.exchange key entry).get? other = i.get? other := by
  unfold get? exchange
  induction i.entries with
  | nil => rfl
  | cons held rest ih =>
    obtain ⟨k, old⟩ := held
    rw [List.map_cons]
    by_cases hk : k = key
    · rw [if_pos hk, hk, Assoc.lookup_cons_of_ne h, Assoc.lookup_cons_of_ne h, ih]
    · rw [if_neg hk, List.lookup_cons, List.lookup_cons, ih]

theorem get?_exchange_self {i : UnorderedIndex} {key : IndexKey} (h : (i.get? key).isSome)
    (entry : Entry) : (i.exchange key entry).get? key = some entry := by
  unfold get? at h
  unfold get? exchange
  revert h
  induction i.entries with
  | nil => exact fun h => nomatch h
  | cons held rest ih =>
    obtain ⟨k, old⟩ := held
    rw [List.map_cons]
    by_cases hk : k = key
    · rw [if_pos hk, List.lookup_cons_self]
      exact fun _ => rfl
    · rw [if_neg hk, Assoc.lookup_cons_of_ne (Ne.symm hk), Assoc.lookup_cons_of_ne (Ne.symm hk)]
      exact ih

theorem get?_vacate_self (i : UnorderedIndex) (key : IndexKey) :
    (i.vacate key).get? key = none := Assoc.lookup_erase_self i.entries key

theorem get?_vacate_of_ne {key other : IndexKey} (h : other ≠ key) (i : UnorderedIndex) :
    (i.vacate key).get? other = i.get? other := Assoc.lookup_erase_of_ne h i.entries

/-- Offers an entry for a key. -/
def apply (i : UnorderedIndex) (key : IndexKey) (proposed : Entry) (t : Terms) :
    Except IndexError Update × UnorderedIndex :=
  if i.closed then (.error .closed, i)
  else
    match i.get? key with
    | none => (.ok ⟨.inserted, none⟩, i.fill key proposed)
    | some present =>
      match resolve (some present) proposed t with
      | .error e => (.error (.comparison e), i)
      | .ok .reject => (.ok ⟨.rejected, none⟩, i)
      | .ok (.insert entry) => (.ok ⟨.inserted, some present⟩, i.exchange key entry)
      | .ok (.supersede entry) => (.ok ⟨.superseded, some present⟩, i.exchange key entry)

/-- Puts back what a write has displaced, unless the key has been written since. -/
def restore (i : UnorderedIndex) (key : IndexKey) (written : Location) (previous : Option Entry) :
    Bool × UnorderedIndex :=
  match i.get? key with
  | none => (false, i)
  | some present =>
    if present.location.same written then
      match previous with
      | some entry => (true, i.exchange key entry)
      | none => (true, i.vacate key)
    else (false, i)

/-- Drops a key that still has the expected location. -/
def remove (i : UnorderedIndex) (key : IndexKey) (expected : Location) : Bool × UnorderedIndex :=
  if (i.get? key).any fun entry => entry.location.same expected then (true, i.vacate key)
  else (false, i)

/-- Drops all entries below a time and answers how many those were. -/
def sweep (i : UnorderedIndex) (floor : Binary64) : Nat × UnorderedIndex :=
  let expired (held : IndexKey × Entry) : Bool := !decide (floor ≤ held.2.time)
  (i.entries.countP expired, { i with entries := i.entries.filter fun held => !expired held })

/-- Closes the index for offers. -/
def close (i : UnorderedIndex) : UnorderedIndex := { i with closed := true }

end UnorderedIndex

end PartitionKeys

/-
# Versions

A version is what decides between two records of one key: a list of named columns.  The
column-wise join of two versions takes the larger value in each column, where no value is
below every value.  The per-column rule lets the first column with a value decide, and joins
the versions if the proposed one wins.
-/
import PartitionKeys.Assoc
import PartitionKeys.Version.Value

namespace PartitionKeys

/-- Named columns in the order in which they were first set. -/
structure Version where
  columns : Assoc String Cell
deriving DecidableEq, Repr

/-- Why two versions cannot be compared. -/
inductive ComparisonError where
  /-- A column holds values of different types. -/
  | typeMismatch (column : String) (stored proposed : ValueType)
  /-- Two lists of values that should go together have different lengths. -/
  | arityMismatch (expected found : Nat)
deriving DecidableEq, Repr

/-- The text of a comparison error. -/
def ComparisonError.message : ComparisonError → String
  | .typeMismatch column stored proposed =>
    "comparison column '" ++ column ++ "' holds " ++ stored.name
      ++ " in the stored version but " ++ proposed.name ++ " in the proposed version"
  | .arityMismatch expected found =>
    "sealed comparison expects " ++ toString expected ++ " values but found " ++ toString found

/-- Compares a proposed value with the stored one of a column. -/
def compareIn (column : String) (stored proposed : Value) : Except ComparisonError Ordering :=
  match proposed.compare? stored with
  | some order => .ok order
  | none => .error (.typeMismatch column stored.type proposed.type)

/-- What becomes of a proposed version. -/
inductive Decision where
  /-- It wins, and this is the version to be held from now on. -/
  | supersede (version : Version)
  | reject
deriving DecidableEq, Repr

namespace Version

/-- The version without columns. -/
def empty : Version := ⟨[]⟩

/-- Sets a column in a list of columns, in its place if it has one. -/
def setColumn (name : String) (cell : Cell) : Assoc String Cell → Assoc String Cell
  | [] => [(name, cell)]
  | (other, old) :: rest =>
    if other = name then (other, cell) :: rest else (other, old) :: setColumn name cell rest

/-- Sets a column; a column that is already there keeps its place. -/
def insert (v : Version) (name : String) (cell : Cell) : Version := ⟨setColumn name cell v.columns⟩

/-- The version with these columns, set one after the other. -/
def ofList (columns : Assoc String Cell) : Version :=
  columns.foldl (fun v (name, cell) => v.insert name cell) empty

/-- The cell of a column. -/
def get? (v : Version) (name : String) : Option Cell := v.columns.lookup name

theorem lookup_setColumn_self (name : String) (cell : Cell) (columns : Assoc String Cell) :
    (setColumn name cell columns).lookup name = some cell := by
  induction columns with
  | nil => exact List.lookup_cons_self
  | cons column rest ih =>
    obtain ⟨other, old⟩ := column
    unfold setColumn
    split
    · next h => rw [h, List.lookup_cons_self]
    · next h => rw [Assoc.lookup_cons_of_ne (Ne.symm h), ih]

theorem lookup_setColumn_of_ne {name other : String} (h : other ≠ name) (cell : Cell)
    (columns : Assoc String Cell) :
    (setColumn name cell columns).lookup other = columns.lookup other := by
  induction columns with
  | nil => exact Assoc.lookup_cons_of_ne h cell []
  | cons column rest ih =>
    obtain ⟨place, old⟩ := column
    unfold setColumn
    split
    · next hp => rw [hp, Assoc.lookup_cons_of_ne h, Assoc.lookup_cons_of_ne h]
    · rw [List.lookup_cons, List.lookup_cons, ih]

theorem get?_insert_self (v : Version) (name : String) (cell : Cell) :
    (v.insert name cell).get? name = some cell := lookup_setColumn_self name cell v.columns

theorem get?_insert_of_ne {name other : String} (h : other ≠ name) (v : Version) (cell : Cell) :
    (v.insert name cell).get? other = v.get? other := lookup_setColumn_of_ne h cell v.columns

theorem mem_keys_setColumn {name other : String} {cell : Cell} {columns : Assoc String Cell}
    (h : other ∈ (setColumn name cell columns).keys) : other = name ∨ other ∈ columns.keys := by
  induction columns with
  | nil => exact Or.inl (List.mem_singleton.1 h)
  | cons column rest ih =>
    obtain ⟨place, old⟩ := column
    unfold setColumn at h
    split at h
    · exact Or.inr h
    · rcases List.mem_cons.1 h with rfl | h
      · exact Or.inr List.mem_cons_self
      · exact (ih h).imp_right (List.mem_cons_of_mem _)

/-- Setting a column never makes a second one of the same name. -/
theorem nodup_keys_setColumn {columns : Assoc String Cell} (h : columns.keys.Nodup)
    (name : String) (cell : Cell) : (setColumn name cell columns).keys.Nodup := by
  induction columns with
  | nil => exact List.nodup_cons.2 ⟨List.not_mem_nil, List.nodup_nil⟩
  | cons column rest ih =>
    obtain ⟨place, old⟩ := column
    obtain ⟨hplace, hrest⟩ := List.nodup_cons.1 h
    unfold setColumn
    split
    · exact h
    · next hne =>
      refine List.nodup_cons.2 ⟨fun hmem => ?_, ih hrest⟩
      rcases mem_keys_setColumn hmem with heq | hmem
      · exact hne heq
      · exact hplace hmem

theorem nodup_keys_ofList (columns : Assoc String Cell) : (ofList columns).columns.keys.Nodup := by
  unfold ofList
  suffices h : ∀ v : Version, v.columns.keys.Nodup →
      (columns.foldl (fun v (name, cell) => v.insert name cell) v).columns.keys.Nodup from
    h empty List.nodup_nil
  induction columns with
  | nil => exact fun _ h => h
  | cons column rest ih =>
    exact fun v h => ih (v.insert column.1 column.2) (nodup_keys_setColumn h _ _)

/-- The value of a column, if the column is there and not null. -/
def value? (v : Version) (name : String) : Option Value := (v.get? name).bind Cell.value?

theorem mem_columns_of_value? {v : Version} {column : String} {value : Value}
    (h : v.value? column = some value) : (column, .full value) ∈ v.columns := by
  obtain ⟨cell, hcell, hvalue⟩ := Option.bind_eq_some_iff.1 h
  obtain ⟨before, after, hcolumns, -⟩ := List.lookup_eq_some_iff.1 hcell
  cases cell with
  | null => cases hvalue
  | full own =>
    cases hvalue
    simp [hcolumns]

/-- The time that a column holds. -/
def time? (v : Version) (column : String) : Option Binary64 := (v.value? column).bind Value.time?

/-- How many columns there are. -/
def size (v : Version) : Nat := v.columns.length

/-- How many columns hold a value. -/
def valueCount (v : Version) : Nat := v.columns.countP fun (_, cell) => !cell.isNull

/-- The values of some columns, in their order. -/
def project (v : Version) (names : List String) : List (Option Value) := names.map v.value?

/-- The first column that holds a value. -/
def firstValue? (v : Version) : Option (String × Value) :=
  v.columns.findSome? fun (name, cell) => cell.value?.map fun value => (name, value)

/-- Equality of versions: the same names in the same order with equal cells. -/
def same (v w : Version) : Bool :=
  v.columns.length == w.columns.length
    && (v.columns.zip w.columns).all fun ((name, cell), (name', cell')) =>
      name == name' && cell.same cell'

/-! ## The join -/

/-- The larger of a proposed and a stored cell of a column.  A value beats null and absence;
otherwise the proposed cell stays unless its value is the smaller one. -/
def joinCell (column : String) (proposed : Cell) (stored : Option Cell) :
    Except ComparisonError Cell :=
  match stored with
  | none => .ok proposed
  | some old =>
    match proposed.value?, old.value? with
    | some new, some value => do
      match ← compareIn column value new with
      | .lt => .ok old
      | _ => .ok proposed
    | some _, none => .ok proposed
    | none, some _ => .ok old
    | none, none => .ok proposed

/-- Joins each proposed column with the stored version. -/
def joinColumns (stored : Version) :
    Assoc String Cell → Except ComparisonError (Assoc String Cell)
  | [] => .ok []
  | (name, cell) :: rest => do
    let cell ← joinCell name cell (stored.get? name)
    let rest ← joinColumns stored rest
    .ok ((name, cell) :: rest)

/-- The column-wise join: the proposed columns in their order, then those that only the
stored version has. -/
def join (proposed stored : Version) : Except ComparisonError Version := do
  let columns ← joinColumns stored proposed.columns
  .ok ⟨columns ++ stored.columns.filter fun (name, _) => (proposed.get? name).isNone⟩

/-! ## The per-column rule -/

/-- Decides between a proposed and the stored version by the first column in which the
proposed one has a value.  A tie, or a stored version without a value there, is won by the
proposed version; a version without any value loses. -/
def decide (proposed stored : Version) : Except ComparisonError Decision :=
  match proposed.firstValue? with
  | none => .ok .reject
  | some (column, value) => do
    let order ← match stored.value? column with
      | none => .ok Ordering.gt
      | some old => compareIn column old value
    match order with
    | .lt => .ok .reject
    | _ => do
      let joined ← proposed.join stored
      .ok (.supersede joined)

end Version

end PartitionKeys

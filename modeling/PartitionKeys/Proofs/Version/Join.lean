/-
# The join of two versions, column by column

A column of a join is that of one of the two versions.  In the column of the time this means
that the join has the time of the proposed version, if that has one there, or has what the
stored version has.
-/
import PartitionKeys.Version.Sealed
import Mathlib.Tactic.Common

namespace PartitionKeys

lemma bind_eq_ok {ε α β : Type} {x : Except ε α} {f : α → Except ε β} {b : β}
    (h : (x >>= f) = .ok b) : ∃ a, x = .ok a ∧ f a = .ok b := by
  cases x with
  | error e => cases h
  | ok a => exact ⟨a, rfl, h⟩

lemma bind_eq_error {ε α β : Type} {x : Except ε α} {f : α → Except ε β} {e : ε}
    (h : (x >>= f) = .error e) : x = .error e ∨ ∃ a, x = .ok a ∧ f a = .error e := by
  cases x with
  | error e' =>
    cases h
    exact .inl rfl
  | ok a => exact .inr ⟨a, rfl, h⟩

lemma mapError_ok {ε ε' α : Type} {f : ε → ε'} {x : Except ε α} {a : α}
    (h : x.mapError f = .ok a) : x = .ok a := by
  cases x with
  | error e => cases h
  | ok b => exact congrArg Except.ok (Except.ok.inj h)

/-! ## The columns of a join -/

/-- The time that a cell holds. -/
def Cell.time? (cell : Cell) : Option Binary64 := cell.value?.bind Value.time?

namespace Version

lemma joinCell_eq {column : String} {proposed cell : Cell} {stored : Option Cell}
    (h : joinCell column proposed stored = .ok cell) :
    cell = proposed ∨ stored = some cell := by
  unfold joinCell at h
  split at h
  · cases h
    exact .inl rfl
  split at h
  · obtain ⟨order, -, h⟩ := bind_eq_ok h
    split at h <;> cases h
    · exact .inr rfl
    · exact .inl rfl
  all_goals cases h
  · exact .inl rfl
  · exact .inr rfl
  · exact .inl rfl

/-- A cell of a joined list of columns is the join of the proposed cell with the stored one. -/
lemma lookup_joinColumns {stored : Version} {columns joined : Assoc String Cell}
    (h : joinColumns stored columns = .ok joined) (name : String) :
    columns.lookup name = none ∧ joined.lookup name = none ∨
      ∃ own cell, columns.lookup name = some own ∧
        joinCell name own (stored.get? name) = .ok cell ∧ joined.lookup name = some cell := by
  induction columns generalizing joined with
  | nil =>
    cases h
    exact .inl ⟨rfl, rfl⟩
  | cons column rest ih =>
    obtain ⟨other, own⟩ := column
    obtain ⟨cell, hcell, h⟩ := bind_eq_ok h
    obtain ⟨joinedRest, hrest, h⟩ := bind_eq_ok h
    cases h
    by_cases hname : name = other
    · subst hname
      exact .inr ⟨own, cell, List.lookup_cons_self, hcell, List.lookup_cons_self⟩
    · rw [Assoc.lookup_cons_of_ne hname, Assoc.lookup_cons_of_ne hname]
      exact ih hrest

/-- A column of a join is that of the stored version if the proposed one lacks it, and the join
of two cells otherwise. -/
lemma get?_join_cases {proposed stored joined : Version}
    (h : proposed.join stored = .ok joined) (name : String) :
    proposed.get? name = none ∧ joined.get? name = stored.get? name ∨
      ∃ own cell, proposed.get? name = some own ∧
        joinCell name own (stored.get? name) = .ok cell ∧ joined.get? name = some cell := by
  obtain ⟨columns, hcolumns, h⟩ := bind_eq_ok h
  cases h
  unfold get?
  rw [List.lookup_append]
  rcases lookup_joinColumns hcolumns name with ⟨hown, hjoined⟩ | ⟨own, cell, hown, hcell, hjoined⟩
  · -- a name that the proposed version lacks is among those that are added
    refine .inl ⟨hown, ?_⟩
    rw [hjoined, Option.none_or]
    refine Assoc.lookup_filter_key (f := fun name => (proposed.get? name).isNone) ?_ _
    simp [get?, hown]
  · exact .inr ⟨own, cell, hown, hcell, by rw [hjoined, Option.some_or]⟩

/-- A column of a join holds what one of the two versions holds there. -/
lemma get?_join {proposed stored joined : Version} (h : proposed.join stored = .ok joined)
    (name : String) :
    joined.get? name = proposed.get? name ∨ joined.get? name = stored.get? name := by
  rcases get?_join_cases h name with ⟨-, hjoined⟩ | ⟨own, cell, hown, hcell, hjoined⟩
  · exact .inr hjoined
  · rw [hown, hjoined]
    rcases joinCell_eq hcell with rfl | hstored
    · exact .inl rfl
    · exact .inr hstored.symm

/-! ## The time of a join -/

lemma time?_eq (v : Version) (column : String) :
    v.time? column = (v.get? column).bind Cell.time? := by
  unfold time? value?
  rw [Option.bind_assoc]
  rfl

/-- Values that can be compared are times both or neither. -/
lemma time?_eq_none_of_compareIn {column : String} {stored own : Value} {order : Ordering}
    (h : compareIn column stored own = .ok order) (htime : own.time? = none) :
    stored.time? = none := by
  cases own with
  | int | double | timestamp => cases htime
  | string own =>
    cases stored with
    | string => rfl
    | int | double | timestamp => simp [compareIn, Value.compare?] at h

/-- A cell without a time stays only where the stored one has no time either. -/
lemma time?_of_joinCell_self {column : String} {cell : Cell} {stored : Option Cell}
    (h : joinCell column cell stored = .ok cell) (htime : cell.time? = none) :
    stored.bind Cell.time? = none := by
  match stored, cell with
  | none, _ => rfl
  | some (.null _), _ => rfl
  | some (.full value), .null _ => cases h
  | some (.full value), .full own =>
    obtain ⟨order, hcompare, -⟩ := bind_eq_ok h
    exact time?_eq_none_of_compareIn hcompare htime

/-- A join of two cells takes the time of the proposed one, if it has a time, or else has what
the stored one has. -/
lemma time?_joinCell {column : String} {own cell : Cell} {stored : Option Cell}
    (h : joinCell column own stored = .ok cell) :
    (∃ time, own.time? = some time ∧ cell.time? = some time) ∨
      cell.time? = stored.bind Cell.time? := by
  rcases joinCell_eq h with rfl | hstored
  · cases htime : cell.time? with
    | some time => exact .inl ⟨time, rfl, rfl⟩
    | none => exact .inr (time?_of_joinCell_self h htime).symm
  · right
    rw [hstored]
    rfl

/-- The time of a join is that of the proposed version, or else what the stored one has, be it a
time or none. -/
lemma time?_join {proposed stored joined : Version} (h : proposed.join stored = .ok joined)
    (column : String) :
    (∃ time, proposed.time? column = some time ∧ joined.time? column = some time) ∨
      joined.time? column = stored.time? column := by
  simp only [time?_eq]
  rcases get?_join_cases h column with ⟨-, hjoined⟩ | ⟨own, cell, hown, hcell, hjoined⟩
  · exact .inr (by rw [hjoined])
  · rw [hown, hjoined]
    exact time?_joinCell hcell

/-! ## Versions that win -/

lemma join_of_supersede {proposed stored version : Version}
    (h : (do
      let joined ← proposed.join stored
      .ok (.supersede joined) : Except ComparisonError Decision) = .ok (.supersede version)) :
    proposed.join stored = .ok version := by
  obtain ⟨joined, hjoin, h⟩ := bind_eq_ok h
  cases h
  exact hjoin

/-- A version that wins by the per-column rule is held as the join. -/
lemma join_of_decide {proposed stored version : Version}
    (h : proposed.decide stored = .ok (.supersede version)) :
    proposed.join stored = .ok version := by
  unfold decide at h
  split at h
  · cases h
  split at h
  · exact join_of_supersede h
  · obtain ⟨order, -, h⟩ := bind_eq_ok h
    cases order with
    | lt => cases h
    | eq | gt => exact join_of_supersede h

end Version

/-- Whichever rule decides, each column of the version that wins is that of one of the two. -/
lemma ComparisonRule.get?_decide {rule : ComparisonRule} {proposed stored version : Version}
    {names : List String} (h : rule.decide proposed stored names = .ok (.supersede version))
    (name : String) :
    version.get? name = proposed.get? name ∨ version.get? name = stored.get? name := by
  cases rule with
  | perColumn => exact Version.get?_join (Version.join_of_decide h) name
  | sealed =>
    obtain ⟨order, -, h⟩ := bind_eq_ok h
    split at h <;> cases h
    exact .inl rfl

end PartitionKeys

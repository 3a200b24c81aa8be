/-
# The largest time of a list of records

The statistics of a segment keep the largest value of each column by the order of values, and an
entry expires by the order of times.  For positive numbers of one type the two orders agree, up
to integers that become the same time; so the largest value of the time column has the largest
time of all records.
-/
import PartitionKeys.Proofs.Binary64.Subtraction
import PartitionKeys.Segment

namespace PartitionKeys

namespace Binary64

lemma ofInt_mono {m n : Int} (h : m ≤ n) : ofInt m ≤ ofInt n :=
  ⟨isNaN_ofUnits _ _, isNaN_ofUnits _ _,
    signed_ofUnits_mono (Int.mul_le_mul_of_nonneg_right h (Int.natCast_nonneg _)) _ _⟩

/-- The place of a positive number among all patterns is its place among the numbers. -/
lemma rank_eq_signed {x : Binary64} (h : zero < x) : x.rank = x.signed := by
  have hpositive : 0 < x.signed := h.2.2
  unfold signed at hpositive
  unfold rank signed
  split at hpositive
  · omega
  · next hsign => rw [if_neg hsign, if_neg hsign]

end Binary64

/-! ## Values that are times -/

/-- A value that is a time of one type, and above zero. -/
structure Value.IsTime (type : ValueType) (value : Value) : Prop where
  type_eq : value.type = type
  positive : ∃ time, value.time? = some time ∧ Binary64.zero < time

lemma Value.IsTime.le_self {type : ValueType} {value : Value} {time : Binary64}
    (h : value.IsTime type) (htime : value.time? = some time) : time ≤ time := by
  obtain ⟨own, hown, hpositive⟩ := h.positive
  obtain rfl : own = time := by simpa [htime] using hown.symm
  exact ⟨hpositive.2.1, hpositive.2.1, le_refl _⟩

/-- What a version holds in a column is a time of one type, and above zero. -/
def Version.HasTimes (type : ValueType) (column : String) (version : Version) : Prop :=
  ∀ value, (column, .full value) ∈ version.columns → value.IsTime type

/-- Times of one type are in the order of their values. -/
lemma Value.time_le {type : ValueType} {v w : Value} {s t : Binary64} (hv : v.IsTime type)
    (hw : w.IsTime type) (hs : v.time? = some s) (ht : w.time? = some t) :
    (v.compare? w = some .gt → t ≤ s) ∧ (v.compare? w ≠ some .gt → s ≤ t) := by
  have htype := hv.type_eq.trans hw.type_eq.symm
  obtain ⟨s', hs', spositive⟩ := hv.positive
  obtain ⟨t', ht', tpositive⟩ := hw.positive
  obtain rfl : s' = s := Option.some.inj (hs'.symm.trans hs)
  obtain rfl : t' = t := Option.some.inj (ht'.symm.trans ht)
  have hint {a b : Int64} : (some (compare a.toInt b.toInt) = some .gt →
      Binary64.ofInt b.toInt ≤ Binary64.ofInt a.toInt) ∧
      (some (compare a.toInt b.toInt) ≠ some .gt →
        Binary64.ofInt a.toInt ≤ Binary64.ofInt b.toInt) := by
    rw [Option.some_inj, Ne, Option.some_inj, compare_gt_iff_gt]
    exact ⟨fun h => Binary64.ofInt_mono h.le, fun h => Binary64.ofInt_mono (not_lt.1 h)⟩
  match v, w with
  | .int a, .int b =>
    cases hs
    cases ht
    exact hint
  | .timestamp a, .timestamp b =>
    cases hs
    cases ht
    exact hint
  | .double a, .double b =>
    cases hs
    cases ht
    rw [Value.compare?, Binary64.totalCompare, Ne, Option.some_inj, compare_gt_iff_gt,
      Binary64.rank_eq_signed spositive, Binary64.rank_eq_signed tpositive]
    exact ⟨fun h => ⟨tpositive.2.1, spositive.2.1, h.le⟩,
      fun h => ⟨spositive.2.1, tpositive.2.1, not_lt.1 h⟩⟩

/-! ## Statistics -/

namespace ColumnMaxima

variable {type : ValueType} {column : String} {maxima next : ColumnMaxima}

lemma lookup_observe_self (column : String) (value : Value) (maxima : ColumnMaxima) :
    (observe column value maxima).lookup column =
      some (some (match maxima.lookup column with
        | some (some old) => if value.compare? old = some .gt then value else old
        | _ => value)) := by
  induction maxima with
  | nil => simp [observe]
  | cons statistic rest ih =>
    obtain ⟨other, largest⟩ := statistic
    unfold observe
    split
    · next h =>
      subst h
      cases largest <;> simp
    · next h =>
      rw [Assoc.lookup_cons_of_ne (Ne.symm h), Assoc.lookup_cons_of_ne (Ne.symm h)]
      exact ih

lemma lookup_observe_of_ne {other : String} (h : other ≠ column) (value : Value)
    (maxima : ColumnMaxima) : (observe column value maxima).lookup other = maxima.lookup other := by
  induction maxima with
  | nil => exact Assoc.lookup_cons_of_ne h _ _
  | cons statistic rest ih =>
    obtain ⟨place, largest⟩ := statistic
    unfold observe
    split
    · next hplace =>
      subst hplace
      cases largest <;> rw [Assoc.lookup_cons_of_ne h, Assoc.lookup_cons_of_ne h]
    · rw [List.lookup_cons, List.lookup_cons, ih]

/-- The statistic on a column, if there is one, is such a time. -/
def Timed (type : ValueType) (column : String) (maxima : ColumnMaxima) : Prop :=
  ∀ largest, maxima.lookup column = some (some largest) → largest.IsTime type

/-- The statistic on a column is a time, and not below this one. -/
def Bounds (column : String) (time : Binary64) (maxima : ColumnMaxima) : Prop :=
  ∃ largest bound, maxima.lookup column = some (some largest) ∧ largest.time? = some bound ∧
    time ≤ bound

lemma Bounds.le {time bound : Binary64} {largest : Value} (h : maxima.Bounds column time)
    (hlookup : maxima.lookup column = some (some largest)) (hbound : largest.time? = some bound) :
    time ≤ bound := by
  obtain ⟨other, otherBound, hother, hotherBound, hle⟩ := h
  obtain rfl : largest = other := by simpa [hlookup] using hother
  obtain rfl : bound = otherBound := by simpa [hbound] using hotherBound
  exact hle

/-- Statistics that have gone on keep their times and their bounds. -/
structure Grows (type : ValueType) (column : String) (maxima next : ColumnMaxima) : Prop where
  timed : next.Timed type column
  bounds : ∀ time, maxima.Bounds column time → next.Bounds column time

lemma Grows.trans {last : ColumnMaxima} (first : Grows type column maxima next)
    (second : Grows type column next last) : Grows type column maxima last :=
  ⟨second.timed, fun time h => second.bounds time (first.bounds time h)⟩

lemma Timed.grows_of_lookup_eq (timed : maxima.Timed type column)
    (h : next.lookup column = maxima.lookup column) : Grows type column maxima next := by
  refine ⟨?_, fun time hbounds => ?_⟩
  · unfold Timed
    rw [h]
    exact timed
  · unfold Bounds
    rw [h]
    exact hbounds

lemma grows_of_lookup {largest : Value} {bound : Binary64}
    (hlookup : next.lookup column = some (some largest)) (hlargest : largest.IsTime type)
    (hbound : largest.time? = some bound) (hle : ∀ time, maxima.Bounds column time → time ≤ bound) :
    Grows type column maxima next := by
  refine ⟨fun other hother => ?_, fun time h => ⟨largest, bound, hlookup, hbound, hle time h⟩⟩
  obtain rfl : largest = other := by simpa [hlookup] using hother
  exact hlargest

/-- A time that is taken into account is bounded afterwards, and so is what was bounded
before. -/
lemma grows_observe_self (timed : maxima.Timed type column) {value : Value} {time : Binary64}
    (hvalue : value.IsTime type) (htime : value.time? = some time) :
    Grows type column maxima (observe column value maxima) ∧
      (observe column value maxima).Bounds column time := by
  have hnext := lookup_observe_self column value maxima
  have hself : time ≤ time := hvalue.le_self htime
  -- without a statistic nothing was bounded before
  have hfresh (hnone : ∀ largest, maxima.lookup column ≠ some (some largest))
      (hlookup : (observe column value maxima).lookup column = some (some value)) :
      Grows type column maxima (observe column value maxima) ∧
        (observe column value maxima).Bounds column time := by
    refine ⟨grows_of_lookup hlookup hvalue htime ?_, value, time, hlookup, htime, hself⟩
    rintro _ ⟨largest, _, hlargest, -⟩
    exact absurd hlargest (hnone largest)
  match hlookup : maxima.lookup column with
  | none => exact hfresh (by simp [hlookup]) (by simpa [hlookup] using hnext)
  | some none => exact hfresh (by simp [hlookup]) (by simpa [hlookup] using hnext)
  | some (some old) =>
    have hold := timed old hlookup
    obtain ⟨bound, hbound, -⟩ := hold.positive
    obtain ⟨habove, hnot⟩ := Value.time_le hvalue hold htime hbound
    simp only [hlookup] at hnext
    split at hnext
    · next hgt =>
      refine ⟨grows_of_lookup hnext hvalue htime fun before hbefore => ?_,
        value, time, hnext, htime, hself⟩
      exact Binary64.le_trans (hbefore.le hlookup hbound) (habove hgt)
    · next hgt =>
      exact ⟨grows_of_lookup hnext hold hbound fun before hbefore => hbefore.le hlookup hbound,
        old, bound, hnext, hbound, hnot hgt⟩

/-- Takes a cell of a column into account. -/
def take (maxima : ColumnMaxima) (held : String × Cell) : ColumnMaxima :=
  match held.2.value? with
  | some value => observe held.1 value maxima
  | none => maxima

lemma ofRecords_eq (records : List Record) :
    ofRecords records = (records.flatMap fun record => record.version.columns).foldl take [] := by
  rw [List.foldl_flatMap]
  rfl

lemma grows_take (timed : maxima.Timed type column) (held : String × Cell)
    (hheld : ∀ value, held = (column, .full value) → value.IsTime type) :
    Grows type column maxima (maxima.take held) := by
  match held with
  | (_, .null _) => exact timed.grows_of_lookup_eq rfl
  | (other, .full value) =>
    by_cases hcolumn : column = other
    · subst hcolumn
      obtain ⟨time, htime, -⟩ := (hheld value rfl).positive
      exact (grows_observe_self timed (hheld value rfl) htime).1
    · exact timed.grows_of_lookup_eq (lookup_observe_of_ne hcolumn value maxima)

lemma grows_foldl {cells : List (String × Cell)} (timed : maxima.Timed type column)
    (hcells : ∀ value, (column, .full value) ∈ cells → value.IsTime type) :
    Grows type column maxima (cells.foldl take maxima) ∧
      ∀ value time, (column, .full value) ∈ cells → value.time? = some time →
        (cells.foldl take maxima).Bounds column time := by
  induction cells generalizing maxima with
  | nil => exact ⟨timed.grows_of_lookup_eq rfl, nofun⟩
  | cons held rest ih =>
    have hhead := grows_take timed held fun value h => hcells value (h ▸ List.mem_cons_self)
    obtain ⟨hrest, hbounds⟩ := ih hhead.timed fun value h => hcells value (List.mem_cons_of_mem _ h)
    refine ⟨hhead.trans hrest, fun value time hmem htime => ?_⟩
    rcases List.mem_cons.1 hmem with rfl | hmem
    · -- bounded as soon as it is taken into account, and from then on
      exact hrest.bounds time (grows_observe_self timed (hcells value List.mem_cons_self) htime).2
    · exact hbounds value time hmem htime

/-- The statistics of a list of records bound all its times. -/
lemma grows_ofRecords {records : List Record}
    (hrecords : ∀ record ∈ records, record.version.HasTimes type column) :
    (ofRecords records).Timed type column ∧ ∀ record ∈ records, ∀ time,
      record.version.time? column = some time → (ofRecords records).Bounds column time := by
  have hcells : ∀ value, (column, .full value) ∈
      records.flatMap (fun record => record.version.columns) → value.IsTime type := by
    intro value h
    obtain ⟨record, hmem, hcell⟩ := List.mem_flatMap.1 h
    exact hrecords record hmem value hcell
  have hempty : Timed type column [] := by simp [Timed]
  obtain ⟨hgrows, hbounds⟩ := grows_foldl hempty hcells
  rw [ofRecords_eq]
  refine ⟨hgrows.timed, fun record hmem time htime => ?_⟩
  obtain ⟨value, hvalue, htime⟩ := Option.bind_eq_some_iff.1 htime
  refine hbounds value time ?_ htime
  exact List.mem_flatMap.2 ⟨record, hmem, Version.mem_columns_of_value? hvalue⟩

/-- A statistic is the value that was taken into account last, or it was there before. -/
lemma lookup_take {held : String × Cell} {largest : Value}
    (h : (maxima.take held).lookup column = some (some largest)) :
    held = (column, .full largest) ∨ maxima.lookup column = some (some largest) := by
  match held with
  | (_, .null _) => exact .inr h
  | (other, .full value) =>
    change (observe other value maxima).lookup column = some (some largest) at h
    by_cases hcolumn : column = other
    · subst hcolumn
      rw [lookup_observe_self, Option.some_inj, Option.some_inj] at h
      split at h
      · next old hold =>
        split at h
        · exact .inl (by rw [h])
        · exact .inr (by rw [hold, h])
      · exact .inl (by rw [h])
    · rw [lookup_observe_of_ne hcolumn] at h
      exact .inr h

lemma mem_of_lookup_foldl {cells : List (String × Cell)} {largest : Value}
    (h : (cells.foldl take maxima).lookup column = some (some largest)) :
    (column, .full largest) ∈ cells ∨ maxima.lookup column = some (some largest) := by
  induction cells generalizing maxima with
  | nil => exact .inr h
  | cons held rest ih =>
    rcases ih h with hmem | hlookup
    · exact .inl (List.mem_cons_of_mem _ hmem)
    · rcases lookup_take hlookup with rfl | hlookup
      · exact .inl List.mem_cons_self
      · exact .inr hlookup

/-- A statistic of a list of records is a value of one of them. -/
lemma mem_of_lookup_ofRecords {records : List Record} {largest : Value}
    (h : (ofRecords records).lookup column = some (some largest)) :
    ∃ record ∈ records, (column, .full largest) ∈ record.version.columns := by
  rw [ofRecords_eq] at h
  rcases mem_of_lookup_foldl h with hmem | hnone
  · exact List.mem_flatMap.1 hmem
  · cases hnone

end ColumnMaxima

/-- The largest time of a segment is above zero, and no record has a time above it. -/
lemma Segment.bounded_by_maxTime {type : ValueType} {column : String} {segment : Segment}
    {records : List Record} {largest : Binary64}
    (derived : segment.maxima = ColumnMaxima.ofRecords records)
    (hrecords : ∀ record ∈ records, record.version.HasTimes type column)
    (hmax : segment.maxTime column = .ok largest) :
    Binary64.zero < largest ∧ ∀ record ∈ records, ∀ time,
      record.version.time? column = some time → time ≤ largest := by
  obtain ⟨timed, hbounds⟩ := ColumnMaxima.grows_ofRecords hrecords
  rw [← derived] at timed hbounds
  unfold maxTime at hmax
  split at hmax
  · cases hmax
  next statistic hlookup =>
  split at hmax
  · next bound hbound =>
    obtain rfl : bound = largest := Except.ok.inj hmax
    obtain ⟨value, rfl, hvalue⟩ := Option.bind_eq_some_iff.1 hbound
    obtain ⟨own, hown, hpositive⟩ := (timed value hlookup).positive
    obtain rfl : own = bound := by simpa [hvalue] using hown.symm
    refine ⟨hpositive, fun record hmem time htime => ?_⟩
    exact (hbounds record hmem time htime).le hlookup hvalue
  · cases hmax

/-- A segment with a record that has a time has a largest time, which is that of a record. -/
lemma Segment.exists_maxTime {type : ValueType} {column : String} {segment : Segment}
    {records : List Record} (derived : segment.maxima = ColumnMaxima.ofRecords records)
    (hrecords : ∀ record ∈ records, record.version.HasTimes type column)
    (named : ∀ record ∈ records, record.version.columns.keys.Nodup)
    (dated : ∃ record ∈ records, ∃ value, record.version.value? column = some value) :
    ∃ largest, segment.maxTime column = .ok largest ∧
      ∃ record ∈ records, record.version.time? column = some largest := by
  obtain ⟨record, hmem, value, hvalue⟩ := dated
  obtain ⟨time, htime, -⟩ :=
    (hrecords record hmem value (Version.mem_columns_of_value? hvalue)).positive
  -- one time is bounded by the statistic, so that there is a statistic
  obtain ⟨largest, bound, hlookup, hbound, -⟩ :=
    (ColumnMaxima.grows_ofRecords hrecords).2 record hmem time (by
      rw [Version.time?, hvalue]
      exact htime)
  refine ⟨bound, ?_, ?_⟩
  · unfold maxTime
    rw [derived, hlookup]
    simp [hbound]
  · obtain ⟨holder, hholder, hcell⟩ := ColumnMaxima.mem_of_lookup_ofRecords hlookup
    have hget := (Assoc.mem_iff_lookup_eq (named holder hholder)).1 hcell
    refine ⟨holder, hholder, ?_⟩
    rw [Version.time?, Version.value?, Version.get?, hget]
    exact hbound

end PartitionKeys

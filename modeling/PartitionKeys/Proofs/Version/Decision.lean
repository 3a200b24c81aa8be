/-
# The per-column decision

The first column in which a proposed version has a value decides: a larger stored value there
turns the proposed version away, one of another type is an error, and otherwise the two versions
are joined.  A version that has won is held as a join that is no smaller in the deciding column
and the same when joined once more, so that offering it again changes nothing, bit for bit.

In general the order of the columns says which one is the first.  With at most one value among
them it does not matter.
-/
import PartitionKeys.Proofs.Version.Columnwise

namespace PartitionKeys

namespace Version

/-! ## The deciding column -/

/-- The first column with a value: those before it are null. -/
def IsFirst (v : Version) (name : String) (value : Value) : Prop :=
  ∃ before after, v.columns = before ++ (name, .full value) :: after ∧
    ∀ column ∈ before, column.2.value? = none

lemma firstValue?_eq_none_iff {v : Version} :
    v.firstValue? = none ↔ ∀ column ∈ v.columns, column.2.value? = none := by
  simp [firstValue?]

lemma firstValue?_eq_some_iff {v : Version} {name : String} {value : Value} :
    v.firstValue? = some (name, value) ↔ v.IsFirst name value := by
  have hcell {column : String × Cell} :
      (column.2.value?.map fun value => (column.1, value)) = some (name, value) ↔
        column = (name, .full value) := by
    obtain ⟨other, cell⟩ := column
    cases cell <;> simp [Cell.value?]
  unfold firstValue? IsFirst
  rw [List.findSome?_eq_some_iff]
  simp only [hcell, Option.map_eq_none_iff]
  constructor
  · rintro ⟨before, column, after, hcolumns, rfl, hbefore⟩
    exact ⟨before, after, hcolumns, hbefore⟩
  · rintro ⟨before, after, hcolumns, hbefore⟩
    exact ⟨before, _, after, hcolumns, rfl, hbefore⟩

lemma IsFirst.value? {v : Version} {name : String} {value : Value} (h : v.IsFirst name value)
    (named : v.columns.keys.Nodup) : v.value? name = some value := by
  obtain ⟨before, after, hcolumns, -⟩ := h
  have hget : v.get? name = some (.full value) := by
    refine (Assoc.mem_iff_lookup_eq named).1 ?_
    simp [hcolumns]
  rw [Version.value?, hget]
  rfl

/-! ## What is decided -/

/-- What the first column with a value makes of a proposed version. -/
inductive Decides (proposed stored : Version) : Except ComparisonError Decision → Prop
  | blank (h : ∀ column ∈ proposed.columns, column.2.value? = none) :
    Decides proposed stored (.ok .reject)
  | clash {name : String} {own held : Value} (first : proposed.IsFirst name own)
    (hheld : stored.value? name = some held) (htype : own.type ≠ held.type) :
    Decides proposed stored (.error (.typeMismatch name held.type own.type))
  | below {name : String} {own held : Value} (first : proposed.IsFirst name own)
    (hheld : stored.value? name = some held) (hlt : own < held) :
    Decides proposed stored (.ok .reject)
  | joins {name : String} {own : Value} (first : proposed.IsFirst name own)
    (hle : stored.level name ≤ own) :
    Decides proposed stored ((proposed.join stored).map .supersede)

/-- What is decided in a column, once it is known to be the first one with a value. -/
lemma decide_of_first {proposed stored : Version} {name : String} {own : Value}
    (first : proposed.IsFirst name own) :
    proposed.decide stored =
      match stored.value? name with
      | none => (proposed.join stored).map .supersede
      | some held =>
        match compareIn name held own with
        | .error e => .error e
        | .ok .lt => .ok .reject
        | .ok _ => (proposed.join stored).map .supersede := by
  unfold decide
  rw [firstValue?_eq_some_iff.2 first]
  dsimp only
  cases stored.value? name with
  | none => cases proposed.join stored <;> rfl
  | some held =>
    dsimp only
    cases compareIn name held own with
    | error e => rfl
    | ok order =>
      cases order with
      | lt => rfl
      | eq | gt => cases proposed.join stored <;> rfl

lemma decide_of_blank {proposed : Version} (stored : Version)
    (h : ∀ column ∈ proposed.columns, column.2.value? = none) :
    proposed.decide stored = .ok .reject := by
  unfold decide
  rw [firstValue?_eq_none_iff.2 h]

section

variable {proposed stored : Version} {name : String} {own held : Value}

lemma decide_eq_error (first : proposed.IsFirst name own)
    (hheld : stored.value? name = some held) (htype : own.type ≠ held.type) :
    proposed.decide stored = .error (.typeMismatch name held.type own.type) := by
  rw [decide_of_first first, hheld]
  dsimp only [compareIn]
  rw [Value.compare?_eq_none_iff.2 htype]

lemma decide_eq_reject (first : proposed.IsFirst name own)
    (hheld : stored.value? name = some held) (hlt : own < held) :
    proposed.decide stored = .ok .reject := by
  rw [decide_of_first first, hheld]
  dsimp only [compareIn]
  rw [Value.compare?_lt_iff.2 hlt]

lemma decide_eq_join (first : proposed.IsFirst name own) (hle : stored.level name ≤ own) :
    proposed.decide stored = (proposed.join stored).map .supersede := by
  rw [decide_of_first first]
  cases hheld : stored.value? name with
  | none => rfl
  | some held =>
    rw [level_eq_coe_iff.2 hheld, WithBot.coe_le_coe] at hle
    dsimp only [compareIn]
    rcases hle.lt_or_eq with hlt | rfl
    · rw [Value.compare?_gt_iff.2 hlt]
    · rw [Value.compare?_eq_iff.2 rfl]

end

lemma decide_decides (proposed stored : Version) :
    Decides proposed stored (proposed.decide stored) := by
  cases hfirst : proposed.firstValue? with
  | none =>
    have hblank := firstValue?_eq_none_iff.1 hfirst
    rw [decide_of_blank stored hblank]
    exact .blank hblank
  | some column =>
    obtain ⟨name, own⟩ := column
    have first := firstValue?_eq_some_iff.1 hfirst
    cases hheld : stored.value? name with
    | none =>
      have hbot : stored.level name = ⊥ := hheld
      have hle : stored.level name ≤ own := hbot ▸ bot_le
      rw [decide_eq_join first hle]
      exact .joins first hle
    | some held =>
      by_cases htype : own.type = held.type
      · rcases Value.lt_or_ge_of_type_eq htype with hlt | hge
        · rw [decide_eq_reject first hheld hlt]
          exact .below first hheld hlt
        · have hle : stored.level name ≤ own := by
            rwa [level_eq_coe_iff.2 hheld, WithBot.coe_le_coe]
          rw [decide_eq_join first hle]
          exact .joins first hle
      · rw [decide_eq_error first hheld htype]
        exact .clash first hheld htype

/-! ## Offering a version again -/

/-- A version that has won wins against what is held then, which stays as it is. -/
lemma decide_again {proposed stored version : Version} (hproposed : proposed.columns.keys.Nodup)
    (hstored : stored.columns.keys.Nodup)
    (h : proposed.decide stored = .ok (.supersede version)) :
    proposed.decide version = .ok (.supersede version) := by
  have hjoin := join_of_decide h
  have hdecides := decide_decides proposed stored
  rw [h] at hdecides
  generalize hanswer : (Except.ok (.supersede version) : Except ComparisonError Decision) = answer
    at hdecides
  cases hdecides with
  | blank | clash | below => cases hanswer
  | @joins name own first hle =>
    have hown : proposed.level name = own := first.value? hproposed
    -- the join is no larger in the deciding column than the version that has won
    have hversion : version.level name ≤ own :=
      (level_join_le_iff hjoin name own).2 ⟨hown.le, hle⟩
    rw [decide_eq_join first hversion, join_again hproposed hstored hjoin, hjoin]

/-! ## Another order of the columns -/

/-- Two decisions are alike: the same error, both to turn away, or both to hold a version, with
the same cell in each column. -/
inductive Alike : Except ComparisonError Decision → Except ComparisonError Decision → Prop
  | error (e : ComparisonError) : Alike (.error e) (.error e)
  | reject : Alike (.ok .reject) (.ok .reject)
  | supersede {v w : Version} (h : ∀ name, v.get? name = w.get? name) :
    Alike (.ok (.supersede v)) (.ok (.supersede w))

lemma get?_perm {v w : Version} (h : w.columns.Perm v.columns) (named : v.columns.keys.Nodup)
    (name : String) : w.get? name = v.get? name := by
  have hw : w.columns.keys.Nodup := (h.map _).nodup_iff.2 named
  ext cell
  rw [get?, get?, ← Assoc.mem_iff_lookup_eq hw, ← Assoc.mem_iff_lookup_eq named, h.mem_iff]

/-- The values of a version with the names of their columns. -/
def values (v : Version) : List (String × Value) :=
  v.columns.filterMap fun column => column.2.value?.map fun value => (column.1, value)

lemma isFirst_iff {v : Version} {name : String} {value : Value} :
    v.IsFirst name value ↔ v.values.head? = some (name, value) := by
  rw [← firstValue?_eq_some_iff, firstValue?, values, List.head?_filterMap]

lemma valueCount_eq (v : Version) : v.valueCount = v.values.length := by
  simp [valueCount, values, Cell.isNull, List.length_filterMap_eq_countP]

lemma mem_values_of_value? {v : Version} {name : String} {value : Value}
    (h : v.value? name = some value) : (name, value) ∈ v.values :=
  List.mem_filterMap.2 ⟨_, mem_columns_of_value? h, rfl⟩

/-- A single value stays where it is, whatever the order of the columns. -/
lemma values_perm {v w : Version} (h : w.columns.Perm v.columns) (hone : v.valueCount ≤ 1) :
    w.values = v.values := by
  have hperm : w.values.Perm v.values := h.filterMap _
  rw [valueCount_eq] at hone
  match hvalues : v.values with
  | [] => exact (hvalues ▸ hperm).eq_nil
  | [value] => exact (hvalues ▸ hperm).eq_singleton
  | value :: other :: rest => simp [hvalues] at hone

/-- A version whose only value is not below the stored one can be joined. -/
lemma exists_join_of_values {v stored : Version} {name : String} {own : Value}
    (named : v.columns.keys.Nodup) (hvalues : v.values = [(name, own)])
    (hle : stored.level name ≤ own) : ∃ joined, v.join stored = .ok joined := by
  cases h : v.join stored with
  | ok joined => exact ⟨joined, rfl⟩
  | error e =>
    obtain ⟨other, held, new, hclash⟩ := (join_eq_error_iff named).1 ⟨e, h⟩
    have hmem := mem_values_of_value? hclash.new_eq
    rw [hvalues, List.mem_singleton, Prod.mk.injEq] at hmem
    obtain ⟨rfl, rfl⟩ := hmem
    rw [level_eq_coe_iff.2 hclash.held_eq, WithBot.coe_le_coe] at hle
    exact absurd (Value.type_eq_of_le hle).symm hclash.type_ne

/-- Joins with one version are equal in each column if the joined versions are. -/
lemma get?_join_congr {v w stored joined joined' : Version}
    (h : ∀ name, w.get? name = v.get? name) (hv : v.join stored = .ok joined)
    (hw : w.join stored = .ok joined') (name : String) :
    joined'.get? name = joined.get? name := by
  have hwcases := get?_join_cases hw name
  rw [h] at hwcases
  rcases get?_join_cases hv name with ⟨hown, hjoined⟩ | ⟨own, cell, hown, hcell, hjoined⟩
  · rcases hwcases with ⟨-, hjoined'⟩ | ⟨own', _, hown', -⟩
    · rw [hjoined, hjoined']
    · rw [hown] at hown'
      cases hown'
  · rcases hwcases with ⟨hown', -⟩ | ⟨own', cell', hown', hcell', hjoined'⟩
    · rw [hown] at hown'
      cases hown'
    · obtain rfl : own = own' := Option.some.inj (hown.symm.trans hown')
      rw [hcell] at hcell'
      rw [hjoined, hjoined', Except.ok.inj hcell']

/-- With at most one value, the order of the columns changes no decision. -/
lemma decide_perm {proposed permuted : Version} (stored : Version)
    (named : proposed.columns.keys.Nodup) (h : permuted.columns.Perm proposed.columns)
    (hone : proposed.valueCount ≤ 1) :
    Alike (proposed.decide stored) (permuted.decide stored) := by
  have hvalues := values_perm h hone
  have first' {name : String} {own : Value} (first : proposed.IsFirst name own) :
      permuted.IsFirst name own := by
    rw [isFirst_iff, hvalues]
    exact isFirst_iff.1 first
  have hdecides := decide_decides proposed stored
  generalize proposed.decide stored = decision at hdecides ⊢
  cases hdecides with
  | blank hblank =>
    rw [decide_of_blank stored fun column hmem => hblank column (h.mem_iff.1 hmem)]
    exact .reject
  | clash first hheld htype =>
    rw [decide_eq_error (first' first) hheld htype]
    exact .error _
  | below first hheld hlt =>
    rw [decide_eq_reject (first' first) hheld hlt]
    exact .reject
  | @joins name own first hle =>
    -- the only value is not in the way of a join, and the two joins have equal columns
    have hsingle : proposed.values = [(name, own)] := by
      obtain ⟨rest, hrest⟩ := List.head?_eq_some_iff.1 (isFirst_iff.1 first)
      rw [valueCount_eq, hrest] at hone
      simpa [hrest] using hone
    have named' : permuted.columns.keys.Nodup := (h.map _).nodup_iff.2 named
    obtain ⟨joined, hjoined⟩ := exists_join_of_values named hsingle hle
    obtain ⟨joined', hjoined'⟩ := exists_join_of_values named' (hvalues.trans hsingle) hle
    rw [decide_eq_join (first' first) hle, hjoined, hjoined']
    refine .supersede fun other => ?_
    exact (get?_join_congr (get?_perm h named) hjoined hjoined' other).symm

/-- **A decision can be replayed.**  The first value decides, and if there is no other one, the
order of the columns does not matter.  A version that has won against what was held wins again
against what is held then, and nothing changes. -/
theorem decision_can_be_replayed {proposed stored : Version}
    (hproposed : proposed.columns.keys.Nodup) (hstored : stored.columns.keys.Nodup) :
    proposed.Decides stored (proposed.decide stored) ∧
    (∀ version, proposed.decide stored = .ok (.supersede version) →
      proposed.decide version = .ok (.supersede version)) ∧
    (proposed.valueCount ≤ 1 → ∀ permuted : Version,
      permuted.columns.Perm proposed.columns →
      Alike (proposed.decide stored) (permuted.decide stored)) :=
  ⟨decide_decides proposed stored, fun _ h => decide_again hproposed hstored h,
    fun hone _ h => decide_perm stored hproposed h hone⟩

end Version

namespace Sample

/-- A version with a zero and no other value. -/
def lone : Version := ⟨[("n", .null .int), ("x", .full (.double ⟨0⟩))]⟩

/-- The same columns the other way round. -/
def turned : Version := ⟨lone.columns.reverse⟩

end Sample

open Sample in
/-- The zero wins against the negative one and then against itself, on either side of a null. -/
theorem decision_can_be_replayed_zeros :
    (zero.columns.keys.Nodup ∧ lone.columns.keys.Nodup ∧ negativeZero.columns.keys.Nodup) ∧
    zero.decide negativeZero = .ok (.supersede zeros) ∧
    zero.decide zeros = .ok (.supersede zeros) ∧
    (lone.valueCount ≤ 1 ∧ turned.columns.Perm lone.columns) ∧
    Version.Alike (lone.decide negativeZero) (turned.decide negativeZero) := by
  have hzero : zero.columns.keys.Nodup := by decide
  have hlone : lone.columns.keys.Nodup := by decide
  have hstored : negativeZero.columns.keys.Nodup := by decide
  have hwins : zero.decide negativeZero = .ok (.supersede zeros) := by decide +kernel
  have hone : lone.valueCount ≤ 1 := by decide
  have hperm : turned.columns.Perm lone.columns := List.reverse_perm _
  obtain ⟨-, hagain, -⟩ := Version.decision_can_be_replayed hzero hstored
  obtain ⟨-, -, hturned⟩ := Version.decision_can_be_replayed hlone hstored
  exact ⟨⟨hzero, hlone, hstored⟩, hwins, hagain zeros hwins, ⟨hone, hperm⟩,
    hturned hone turned hperm⟩

end PartitionKeys

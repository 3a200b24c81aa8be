/-
# Checked settings

What the check lets through has a normal form: the retention is a number that is not negative,
there is a key column, and the columns that can be inferred are filled in.  Settings in normal
form pass the check as they are.
-/
import PartitionKeys.Settings.Basic
import Mathlib.Tactic.Common

namespace PartitionKeys

namespace Settings

/-- Settings with everything inferred filled in. -/
structure IsNormal (s : Settings) : Prop where
  isNaN_ttl : s.ttl.isNaN = false
  not_ttl_lt : ¬ s.ttl < Binary64.zero
  keyColumns_ne_nil : s.keyColumns ≠ []
  /-- The time column of an upsert table is one of its comparison columns. -/
  upsert : s.kind = .upsert → ∃ column ∈ s.comparisonColumns, s.timeColumn = some column
  /-- The time column of a dedup table is its only comparison column, unless others are named. -/
  dedup : s.kind = .dedup → s.comparisonColumns = [] → s.timeColumn = none
  timed : s.ttlEnabled = true → s.timeColumn.isSome = true

lemma isNaN_zero : Binary64.zero.isNaN = false := by decide

lemma clampTtl_eq {ttl : Binary64} (h : ¬ ttl < Binary64.zero) : clampTtl ttl = ttl := if_neg h

lemma isNaN_clampTtl {ttl : Binary64} (h : ttl.isNaN = false) : (clampTtl ttl).isNaN = false := by
  unfold clampTtl
  split
  · exact isNaN_zero
  · exact h

lemma not_clampTtl_lt (ttl : Binary64) : ¬ clampTtl ttl < Binary64.zero := by
  unfold clampTtl
  split
  · exact Binary64.lt_irrefl _
  · assumption

variable {c s : Settings}

/-- What the check fills in: the columns, once the retention is clamped. -/
def fillColumns (c : Settings) : Except SettingsError Settings :=
  match c.kind with
  | .upsert => c.checkUpsert
  | .dedup => .ok c.fillDedup

/-- The columns that are filled in, and what else the check leaves alone. -/
structure FilledFrom (c s : Settings) : Prop where
  same : s = { c with comparisonColumns := s.comparisonColumns, timeColumn := s.timeColumn }
  upsert : s.kind = .upsert → ∃ column ∈ s.comparisonColumns, s.timeColumn = some column
  dedup : s.kind = .dedup → s.comparisonColumns = [] → s.timeColumn = none

lemma filledFrom_of_fillColumns (h : c.fillColumns = .ok s) : FilledFrom c s := by
  unfold fillColumns at h
  cases hkind : c.kind with
  | upsert =>
    rw [hkind] at h
    change c.checkUpsert = .ok s at h
    unfold checkUpsert at h
    split at h
    · cases h
    · dsimp only at h
      split at h
      · rename_i hmem
        cases h
        exact ⟨rfl, fun _ => ⟨_, hmem, rfl⟩, fun hdedup => by cases hkind.symm.trans hdedup⟩
      · cases h
  | dedup =>
    rw [hkind] at h
    cases h
    have hnot : c.kind ≠ .upsert := by simp [hkind]
    unfold fillDedup
    split
    · exact ⟨rfl, fun hupsert => absurd hupsert hnot,
        fun _ hnone => Option.toList_eq_nil_iff.1 hnone⟩
    · rename_i hsome
      exact ⟨rfl, fun hupsert => absurd hupsert hnot,
        fun _ hnone => absurd (List.isEmpty_iff.2 hnone) hsome⟩

/-- Nothing is filled in twice. -/
lemma fillColumns_of_isNormal (h : s.IsNormal) : s.fillColumns = .ok s := by
  unfold fillColumns
  cases hkind : s.kind with
  | upsert =>
    obtain ⟨column, hmem, htime⟩ := h.upsert hkind
    obtain ⟨first, rest, hcolumns⟩ := List.exists_cons_of_ne_nil (List.ne_nil_of_mem hmem)
    have hcheck : s.checkUpsert =
        if s.timeColumn.getD first ∈ s.comparisonColumns then
          .ok { s with timeColumn := some (s.timeColumn.getD first) }
        else .error (.timeColumnNotCompared s.table (s.timeColumn.getD first)) := by
      unfold checkUpsert
      rw [hcolumns]
    rw [hcheck, htime, Option.getD_some, if_pos hmem, ← htime]
  | dedup =>
    show Except.ok s.fillDedup = .ok s
    unfold fillDedup
    split
    · rename_i hnone
      have hcolumns := List.isEmpty_iff.1 hnone
      have hlist : s.timeColumn.toList = s.comparisonColumns := by
        rw [h.dedup hkind hcolumns, hcolumns, Option.toList_none]
      rw [hlist]
    · rfl

/-- The check in its steps. -/
lemma checked_eq (c : Settings) :
    c.checked =
      if c.ttl.isNaN then .error (.invalidTtl c.table)
      else if c.keyColumns.isEmpty then .error (.missingKeyColumns c.table)
      else ({ c with ttl := clampTtl c.ttl } : Settings).fillColumns >>= fun s =>
        if s.ttlEnabled && s.timeColumn.isNone then .error (.missingTimeColumn s.table s.kind)
        else .ok s := by
  obtain ⟨_, _, kind, _, _, _, _, _, _⟩ := c
  cases kind <;> rfl

/-- What the check answers is its argument with the retention clamped and columns filled in. -/
theorem isNormal_of_checked (h : c.checked = .ok s) :
    s.IsNormal ∧ FilledFrom { c with ttl := clampTtl c.ttl } s := by
  rw [checked_eq] at h
  split at h
  · cases h
  rename_i hnan
  split at h
  · cases h
  rename_i hkeys
  rw [Bool.not_eq_true] at hnan
  cases hfill : ({ c with ttl := clampTtl c.ttl } : Settings).fillColumns with
  | error e =>
    rw [hfill] at h
    cases h
  | ok filled =>
    rw [hfill] at h
    simp only [bind, Except.bind] at h
    split at h
    · cases h
    rename_i htimed
    cases h
    have hfilled := filledFrom_of_fillColumns hfill
    have httl : s.ttl = clampTtl c.ttl := by rw [hfilled.same]
    have hcolumns : s.keyColumns = c.keyColumns := by rw [hfilled.same]
    refine ⟨⟨?_, ?_, ?_, hfilled.upsert, hfilled.dedup, ?_⟩, hfilled⟩
    · rw [httl]
      exact isNaN_clampTtl hnan
    · rw [httl]
      exact not_clampTtl_lt _
    · rw [hcolumns]
      simpa using hkeys
    · intro henabled
      rw [henabled, Bool.true_and, Option.isNone_iff_eq_none] at htimed
      exact Option.isSome_iff_ne_none.2 htimed

/-- **Settings in normal form pass the check as they are.** -/
theorem checked_of_isNormal (h : s.IsNormal) : s.checked = .ok s := by
  have hkeys : s.keyColumns.isEmpty = false := by
    rw [List.isEmpty_eq_false_iff]
    exact h.keyColumns_ne_nil
  have htimed : (s.ttlEnabled && s.timeColumn.isNone) = false := by
    cases henabled : s.ttlEnabled with
    | false => rfl
    | true => simpa using h.timed henabled
  rw [checked_eq, h.isNaN_ttl, hkeys, clampTtl_eq h.not_ttl_lt]
  simp [fillColumns_of_isNormal h, htimed, bind, Except.bind]

/-- Settings that have been checked pass the check again, unchanged. -/
theorem checked_of_checked (h : c.checked = .ok s) : s.checked = .ok s :=
  checked_of_isNormal (isNormal_of_checked h).1

end Settings

end PartitionKeys

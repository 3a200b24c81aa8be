/-
# What is asked of the readers of segments

A partition asks the readers of its segments for the comparison columns of its settings, and reads
the time of a record off its time column.  So the time is known for certain only if the time
column is among the comparison columns.  The check sees to this in upsert tables, and in dedup
tables without comparison columns.  The comparison columns that a dedup table is given are
neither replaced nor looked at: if the time column is not among them, a reader that provides no
more than it is asked for leaves all records without a time.
-/
import PartitionKeys.Proofs.Partition.Configured
import PartitionKeys.Proofs.Partition.Inheritance

namespace PartitionKeys

/-! ## Readers that provide what they are asked for -/

namespace ReadRequest

/-- The version that comes from a reader that provides no more than it is asked for. -/
def provided (request : ReadRequest) (version : Version) : Version :=
  ⟨version.columns.filter fun held => request.comparisonColumns.contains held.1⟩

variable {request : ReadRequest} {column : String}

lemma time?_provided (h : column ∈ request.comparisonColumns) (version : Version) :
    (request.provided version).time? column = version.time? column := by
  have hget : (request.provided version).get? column = version.get? column :=
    Assoc.lookup_filter_key (f := request.comparisonColumns.contains)
      (List.contains_iff_mem.2 h) version.columns
  rw [Version.time?_eq, Version.time?_eq, hget]

/-- A record with a time and nothing else, of which nothing is provided. -/
lemma provided_eq_empty (h : column ∉ request.comparisonColumns) (cell : Cell) :
    request.provided ⟨[(column, cell)]⟩ = .empty := by
  unfold provided
  rw [List.filter_cons_of_neg (by simpa using h)]
  rfl

/-- The times of all records can be told from what a reader provides exactly if the time column
is asked for. -/
lemma timeOf_provided_iff {timeColumn : Option String} :
    (∀ version, Entry.timeOf (request.provided version) timeColumn =
        Entry.timeOf version timeColumn) ↔
      ∀ column ∈ timeColumn, column ∈ request.comparisonColumns := by
  constructor
  · rintro h column rfl
    by_contra hnot
    have htime := h ⟨[(column, .full (.int 1))]⟩
    rw [provided_eq_empty hnot] at htime
    have hone : Entry.timeOf ⟨[(column, .full (.int 1))]⟩ (some column) = Binary64.ofInt 1 := by
      simp [Entry.timeOf, Version.time?_eq, Version.get?, Cell.time?, Cell.value?, Value.time?]
    have hunset : Entry.timeOf .empty (some column) = Binary64.zero := rfl
    rw [hone, hunset] at htime
    exact absurd htime (by decide +kernel)
  · intro h version
    cases timeColumn with
    | none => rfl
    | some column =>
      unfold Entry.timeOf
      rw [Option.bind_some, Option.bind_some, time?_provided (h column rfl)]

end ReadRequest

/-! ## The columns of checked settings -/

namespace Settings

variable {c s : Settings}

/-- The time column is a comparison column by the rules of the table, or because the settings say
so before they are checked. -/
def TellsTime (c : Settings) : Prop :=
  c.kind = .upsert ∨ c.comparisonColumns = [] ∨
    ∀ column ∈ c.timeColumn, column ∈ c.comparisonColumns

/-- A dedup table keeps its time column and the comparison columns that it is given. -/
lemma columns_of_checked_dedup (accepted : c.checked = .ok s) (dedup : c.kind = .dedup) :
    s.timeColumn = c.timeColumn ∧ s.comparisonColumns =
      if c.comparisonColumns = [] then c.timeColumn.toList else c.comparisonColumns := by
  rw [checked_eq] at accepted
  split at accepted
  · cases accepted
  split at accepted
  · cases accepted
  have hfill : ({ c with ttl := clampTtl c.ttl } : Settings).fillColumns =
      .ok ({ c with ttl := clampTtl c.ttl } : Settings).fillDedup := by
    unfold fillColumns
    rw [dedup]
  rw [hfill] at accepted
  simp only [bind, Except.bind] at accepted
  split at accepted
  · cases accepted
  cases accepted
  unfold fillDedup
  simp only [List.isEmpty_iff]
  split <;> exact ⟨rfl, rfl⟩

lemma kind_of_checked (accepted : c.checked = .ok s) : s.kind = c.kind := by
  have hsame := (isNormal_of_checked accepted).2.same
  rw [hsame]

lemma timeColumn_mem_iff (accepted : c.checked = .ok s) :
    (∀ column ∈ s.timeColumn, column ∈ s.comparisonColumns) ↔ c.TellsTime := by
  have hkind := kind_of_checked accepted
  unfold TellsTime
  cases hc : c.kind with
  | upsert =>
    obtain ⟨column, hmem, htime⟩ := (isNormal_of_checked accepted).1.upsert (hkind.trans hc)
    refine ⟨fun _ => .inl rfl, fun _ => ?_⟩
    rw [htime]
    rintro _ ⟨⟩
    exact hmem
  | dedup =>
    obtain ⟨htime, hcolumns⟩ := columns_of_checked_dedup accepted hc
    rw [htime, hcolumns]
    by_cases hnone : c.comparisonColumns = []
    · simp [hnone]
    · simp [hnone]

lemma dedup_columns_iff (accepted : c.checked = .ok s) (dedup : s.kind = .dedup) :
    s.comparisonColumns = s.timeColumn.toList ↔
      c.comparisonColumns = [] ∨ c.comparisonColumns = c.timeColumn.toList := by
  obtain ⟨htime, hcolumns⟩ :=
    columns_of_checked_dedup accepted ((kind_of_checked accepted).symm.trans dedup)
  rw [htime, hcolumns]
  by_cases hnone : c.comparisonColumns = []
  · simp [hnone]
  · simp [hnone]

end Settings

namespace Partition

/-- Settings that the check accepts set a partition up and stay with it. -/
lemma exists_build {c s : Settings} (accepted : c.checked = .ok s) (index : KeyIndex)
    (choice : StoreChoice) (metrics : Metrics) :
    ∃ p, build c index choice metrics = .ok p ∧ ∀ done, (p.turns done).settings = s := by
  obtain ⟨p, hbuild⟩ : ∃ p, build c index choice metrics = .ok p := by
    unfold build
    rw [accepted]
    exact ⟨_, rfl⟩
  refine ⟨p, hbuild, fun done => ?_⟩
  rw [settings_turns]
  exact Except.ok.inj ((built_of_build hbuild).settings.symm.trans accepted)

/-- **When the time is asked for.**  The time column of settings that the check accepts is among
their comparison columns exactly if the table is an upsert table, or no comparison columns are
given, or the time column is given as one of them; in a dedup table it is the only one exactly if
no others are given.  A partition can be set up with such settings, and whatever is done with it,
it asks the readers of segments for just these columns.  So exactly under that condition, the
times of all records can be told from what is asked for. -/
theorem time_is_requested_iff {c s : Settings} (accepted : c.checked = .ok s) :
    ((∀ column ∈ s.timeColumn, column ∈ s.comparisonColumns) ↔ c.TellsTime) ∧
    (s.kind = .dedup → (s.comparisonColumns = s.timeColumn.toList ↔
      c.comparisonColumns = [] ∨ c.comparisonColumns = c.timeColumn.toList)) ∧
    ∀ index choice metrics, ∃ p, build c index choice metrics = .ok p ∧ ∀ done,
      (p.turns done).readRequest = ⟨s.keyColumns, s.comparisonColumns⟩ ∧
      ((∀ version,
        Entry.timeOf ((p.turns done).readRequest.provided version)
          (p.turns done).settings.timeColumn =
        Entry.timeOf version (p.turns done).settings.timeColumn) ↔ c.TellsTime) := by
  refine ⟨Settings.timeColumn_mem_iff accepted, Settings.dedup_columns_iff accepted, ?_⟩
  intro index choice metrics
  obtain ⟨p, hbuild, hturns⟩ := exists_build accepted index choice metrics
  refine ⟨p, hbuild, fun done => ?_⟩
  have hrequest : (p.turns done).readRequest = ⟨s.keyColumns, s.comparisonColumns⟩ := by
    unfold readRequest
    rw [hturns]
  refine ⟨hrequest, ?_⟩
  rw [hturns, hrequest, ← Settings.timeColumn_mem_iff accepted]
  exact ReadRequest.timeOf_provided_iff

end Partition

namespace Sample

/-- Settings of a dedup table whose time column is one of two comparison columns. -/
def heeding : Settings := { expiring with kind := .dedup, comparisonColumns := ["seq", "at"] }

/-- The same table without the time column among them. -/
def unheeding : Settings := { heeding with comparisonColumns := ["seq"] }

end Sample

/-- The time is asked for, although it is not the only thing that is. -/
theorem time_is_requested_iff_heeding :
    Sample.heeding.checked = .ok Sample.heeding ∧
    (∀ column ∈ Sample.heeding.timeColumn, column ∈ Sample.heeding.comparisonColumns) ∧
    Sample.heeding.comparisonColumns ≠ Sample.heeding.timeColumn.toList ∧
    ∃ p, Partition.build Sample.heeding { backend := .sorted {} }
        (.given { medium := .memory {} }) .off = .ok p ∧
      (p.turns Sample.hurried).readRequest = ⟨["id"], ["seq", "at"]⟩ ∧
      ∀ version,
        Entry.timeOf ((p.turns Sample.hurried).readRequest.provided version)
          (p.turns Sample.hurried).settings.timeColumn =
        Entry.timeOf version (p.turns Sample.hurried).settings.timeColumn := by
  have accepted : Sample.heeding.checked = .ok Sample.heeding := rfl
  have htells : Sample.heeding.TellsTime := by
    refine .inr (.inr ?_)
    rintro _ ⟨⟩
    decide
  obtain ⟨hcolumns, honly, hbuild⟩ := Partition.time_is_requested_iff accepted
  obtain ⟨p, hbuild, hturns⟩ := hbuild { backend := .sorted {} } (.given { medium := .memory {} })
    .off
  obtain ⟨hrequest, htimes⟩ := hturns Sample.hurried
  refine ⟨accepted, hcolumns.2 htells, fun h => ?_, p, hbuild, hrequest, htimes.2 htells⟩
  exact absurd ((honly rfl).1 h) (by decide)

/-- The comparison columns of a dedup table can leave its time out: the check accepts them as they
are, and what is then provided of a record at 95 has no time. -/
theorem time_can_be_left_out :
    (¬∀ c s : Settings, c.checked = .ok s →
      ∀ column ∈ s.timeColumn, column ∈ s.comparisonColumns) ∧
    Sample.unheeding.checked = .ok Sample.unheeding ∧
    Sample.unheeding.timeColumn = some "at" ∧ Sample.unheeding.comparisonColumns = ["seq"] ∧
    ∃ p, Partition.build Sample.unheeding { backend := .sorted {} }
        (.given { medium := .memory {} }) .off = .ok p ∧
      Entry.timeOf (Sample.numbered 1 0 7 95).version p.settings.timeColumn =
        Binary64.ofInt 95 ∧
      Entry.timeOf (p.readRequest.provided (Sample.numbered 1 0 7 95).version)
        p.settings.timeColumn = Watermark.unset.time := by
  have accepted : Sample.unheeding.checked = .ok Sample.unheeding := rfl
  refine ⟨fun h => ?_, accepted, rfl, rfl, _, rfl, by decide +kernel, by decide +kernel⟩
  exact absurd (h _ _ accepted "at" rfl) (by decide)

end PartitionKeys

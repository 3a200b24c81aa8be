/-
# The time of an entry is that of its version

An entry carries its time beside its version, since sweeps and floors look at the time alone.
The two could come apart: a version is taken over, joined with another one, or put back by a
roll-back.  They never do.  What a version tells about the time is said by `Version.Tells`,
without the function that computes it.  Besides the entries, the journals of unfinished
operations must be told, since a roll-back may bring what they hold back at any later moment.
So the invariant speaks of an index together with the tasks that share it, and it holds
wherever operations begin, take turns, fail and are undone, and sweeps and closings come in
between.
-/
import PartitionKeys.Proofs.Interleaving.Convergence
import PartitionKeys.Proofs.Partition.Origin

namespace PartitionKeys

/-! ## What a version tells -/

/-- What a version tells about the time: the number in the time column.  Where that column is
absent, null or a text, or where there is none, the time is zero. -/
inductive Version.Tells (version : Version) : Option String → Binary64 → Prop
  | int {column : String} {value : Int64} (h : version.get? column = some (.full (.int value))) :
    Tells version (some column) (.ofInt value.toInt)
  | timestamp {column : String} {value : Int64}
    (h : version.get? column = some (.full (.timestamp value))) :
    Tells version (some column) (.ofInt value.toInt)
  | double {column : String} {value : Binary64}
    (h : version.get? column = some (.full (.double value))) : Tells version (some column) value
  | text {column value : String} (h : version.get? column = some (.full (.string value))) :
    Tells version (some column) .zero
  | null {column : String} {type : ValueType} (h : version.get? column = some (.null type)) :
    Tells version (some column) .zero
  | absent {column : String} (h : version.get? column = none) : Tells version (some column) .zero
  | untimed : Tells version none .zero

lemma Version.tells_timeOf (version : Version) (timeColumn : Option String) :
    version.Tells timeColumn (Entry.timeOf version timeColumn) := by
  cases timeColumn with
  | none => exact .untimed
  | some column =>
    simp only [Entry.timeOf, Option.bind_some, Version.time?, Version.value?]
    cases hcell : version.get? column with
    | none => exact .absent hcell
    | some cell =>
      cases cell with
      | null type => exact .null hcell
      | full value =>
        cases value with
        | int value => exact .int hcell
        | timestamp value => exact .timestamp hcell
        | double value => exact .double hcell
        | string value => exact .text hcell

/-- Whether each entry has the time that its version tells. -/
def Told (timeColumn : Option String) (entries : IndexKey → Option Entry) : Prop :=
  ∀ key entry, entries key = some entry → entry.version.Tells timeColumn entry.time

section Told

variable {timeColumn : Option String} {before after : IndexKey → Option Entry} {key : IndexKey}

lemma Told.mono (h : Told timeColumn before)
    (hsub : ∀ key entry, after key = some entry → before key = some entry) :
    Told timeColumn after :=
  fun key entry hget => h key entry (hsub key entry hget)

lemma Told.update (h : Told timeColumn before) {present : Option Entry}
    (told : ∀ entry ∈ present, entry.version.Tells timeColumn entry.time) :
    Told timeColumn (Function.update before key present) := by
  intro other entry hget
  by_cases hkey : other = key
  · subst hkey
    rw [Function.update_self] at hget
    exact told entry hget
  · rw [Function.update_of_ne hkey] at hget
    exact h other entry hget

/-- Whatever an offer writes, its time is computed from its version: a record that wins has the
time of the version that it wins with. -/
lemma tells_of_resolve {present : Option Entry} {location : Location} {version : Version}
    {t : Terms} {r : Resolution} {entry : Entry}
    (h : resolve present (.of location version t.timeColumn) t = .ok r)
    (hr : r.entry? = some entry) : entry.version.Tells t.timeColumn entry.time := by
  cases resolve_resolved h with
  | inserted | tookOver | won =>
    cases hr
    exact Version.tells_timeOf _ _
  | kept => cases hr

end Told

/-! ## Tasks -/

namespace Task

/-- Whether the entries that a task may still put back have the times that their versions tell,
and what it offers goes by the same time column. -/
structure Told (timeColumn : Option String) (task : Task) : Prop where
  displaced : ∀ write ∈ task.live, ∀ entry ∈ write.displaced,
    entry.version.Tells timeColumn entry.time
  offers : ∀ o rest journal old, task = .offering o rest journal old →
    o.terms.timeColumn = timeColumn

variable {timeColumn : Option String}

/-- An undoing task offers nothing. -/
lemma told_undoing {journal skipped : List Write} (displaced : ∀ write ∈ journal,
    ∀ entry ∈ write.displaced, entry.version.Tells timeColumn entry.time) :
    (undoing journal skipped).Told timeColumn :=
  ⟨displaced, fun _ _ _ _ => nofun⟩

/-- A dropping task puts nothing back. -/
lemma told_dropping {hash : KeyHash} {segment : SegmentId} {rest : List Record} :
    (dropping hash segment rest).Told timeColumn :=
  ⟨fun _ hmem => absurd hmem List.not_mem_nil, fun _ _ _ _ => nofun⟩

/-- One turn of a task keeps times and versions together, in the index and in its journal. -/
lemma Told.stepped {before after : IndexKey → Option Entry} {task next : Task}
    (told : task.Told timeColumn) (entries : PartitionKeys.Told timeColumn before)
    (h : Stepped before task after next) :
    PartitionKeys.Told timeColumn after ∧ next.Told timeColumn := by
  cases h with
  | done => exact ⟨entries, told⟩
  | refused => exact ⟨entries, told_undoing told.displaced⟩
  | rejected o record rest journal old =>
    refine ⟨entries, told.displaced, ?_⟩
    rintro _ _ _ _ ⟨⟩
    exact told.offers o _ _ _ rfl
  | written o record rest journal old r entry resolution held =>
    obtain rfl := told.offers o _ _ _ rfl
    refine ⟨entries.update ?_, ?_, ?_⟩
    · rintro _ ⟨⟩
      exact tells_of_resolve resolution held
    · -- the new write displaces what the index has held
      intro write hmem displaced hdisplaced
      rcases List.mem_cons.1 hmem with rfl | hmem
      · exact entries _ displaced hdisplaced
      · exact told.displaced write hmem displaced hdisplaced
    · rintro _ _ _ _ ⟨⟩
      rfl
  | turned => exact ⟨entries, told_dropping⟩
  | restored write rest =>
    exact ⟨entries.update (told.displaced write List.mem_cons_self),
      told_undoing fun other hmem => told.displaced other (List.mem_cons_of_mem _ hmem)⟩
  | skipped write rest =>
    exact ⟨entries,
      told_undoing fun other hmem => told.displaced other (List.mem_cons_of_mem _ hmem)⟩
  | dropped hash segment record rest after hafter =>
    exact ⟨entries.mono fun key entry hget => ((hafter key entry).1 hget).1, told_dropping⟩

/-- What an index keeps while it is in use, each turn of a task keeps. -/
lemma step_keptInUse {P : KeyIndex → Prop} (kept : KeyIndex.KeptInUse P) (task : Task)
    {i : KeyIndex} (h : P i) : P (task.step i).1 := by
  cases task with
  | offering o rest journal old =>
    cases rest with
    | nil => cases old <;> exact h
    | cons record rest =>
      have hpass := kept.passRun o [record] { index := i, journal } h
      simp only [step]
      generalize Pass.run o [record] { index := i, journal } = result at hpass ⊢
      obtain ⟨_ | e, pass⟩ := result <;> exact hpass
  | undoing journal skipped =>
    cases journal with
    | nil => exact h
    | cons write rest => exact kept.restore i write.key write.written write.displaced h
  | dropping hash segment rest =>
    cases rest with
    | nil => exact h
    | cons record rest => exact kept.remove i (hash.apply record.key) ⟨segment, record.doc⟩ h

end Task

namespace Partition

/-- What a call sets out to do goes by the time column of the settings. -/
lemma told_callTask {p : Partition} {call : Call} {task : Task}
    (h : p.callTask? call = some task) : task.Told p.settings.timeColumn := by
  cases call with
  | change change =>
    obtain ⟨watermark, gate, -, htask⟩ := callTask?_change h
    unfold task? at htask
    split at htask
    · cases htask
    next records _ =>
    cases change with
    | remove segment =>
      cases htask
      exact Task.told_dropping
    | add segment | replace old segment =>
      dsimp only at htask
      split at htask
      · cases htask
      cases htask
      refine ⟨fun _ hmem => absurd hmem List.not_mem_nil, ?_⟩
      rintro _ _ _ _ ⟨⟩
      rfl
  | ingest segment record =>
    obtain ⟨gate, watermark, -, -, rfl⟩ := callTask?_ingest h
    refine ⟨fun _ hmem => absurd hmem List.not_mem_nil, ?_⟩
    rintro _ _ _ _ ⟨⟩
    rfl
  | sweep | stop | close => cases h

end Partition

/-! ## Calls that share an index -/

namespace World

variable {ι : Type} [DecidableEq ι] {settings : Settings} {w : World ι}

/-- An index without calls at work. -/
def idle (i : KeyIndex) : World ι := ⟨i, fun _ => .undoing [] []⟩

/-- The worlds that calls under the same settings can bring about from an empty index.  A call
begins when the one before it in its place is done, at whatever watermark and gate it finds; then
it takes its turns between those of the others, and sweeps and closings may come at any moment. -/
inductive Reached (settings : Settings) : World ι → Prop
  | initially {i : KeyIndex} (empty : i.keys = []) : Reached settings (idle i)
  | begun {w : World ι} (h : Reached settings w) {p : Partition} {call : Call} {task : Task} {t : ι}
    (done : (w.task t).isDone = true) (hsettings : p.settings = settings)
    (hcall : p.callTask? call = some task) :
    Reached settings { w with task := Function.update w.task t task }
  | turned {w : World ι} (h : Reached settings w) (t : ι) : Reached settings (w.step t)
  | swept {w : World ι} (h : Reached settings w) (floor : Binary64) :
    Reached settings { w with index := (w.index.sweep floor).2 }
  | closed {w : World ι} (h : Reached settings w) :
    Reached settings { w with index := w.index.close.2 }

lemma Reached.run (h : Reached settings w) (schedule : List ι) :
    Reached settings (w.run schedule) :=
  run_induction (fun _ t h => h.turned t) schedule h

lemma Reached.wellFormed (h : Reached settings w) : w.index.WellFormed := by
  induction h with
  | initially empty => exact KeyIndex.wellFormed_of_keys_eq_nil empty
  | begun _ _ _ _ ih => exact ih
  | turned _ t ih => exact Task.step_keptInUse KeyIndex.wellFormed_kept.inUse _ ih
  | swept _ floor ih => exact KeyIndex.wellFormed_kept.sweep _ _ ih
  | closed _ ih => exact KeyIndex.wellFormed_kept.close _ ih

/-- At every moment the entries, and those that may still be put back, have the times that their
versions tell. -/
lemma Reached.told (h : Reached settings w) :
    Told settings.timeColumn w.index.get? ∧ ∀ t, (w.task t).Told settings.timeColumn := by
  induction h with
  | initially empty =>
    refine ⟨fun key entry hget => ?_, fun t => Task.told_undoing nofun⟩
    rw [show (idle _ : World ι).index.get? key = none from
      KeyIndex.get?_of_keys_eq_nil empty key] at hget
    cases hget
  | begun _ _ hsettings hcall ih =>
    refine ⟨ih.1, fun t => ?_⟩
    have htask := Partition.told_callTask hcall
    rw [hsettings] at htask
    dsimp only
    rw [Function.update_apply]
    split
    · exact htask
    · exact ih.2 t
  | @turned w _ t ih =>
    obtain ⟨hentries, htask⟩ := (ih.2 t).stepped ih.1 (w.stepped t)
    refine ⟨hentries, fun s => ?_⟩
    by_cases hs : s = t
    · exact hs ▸ htask
    · rw [step_task_of_ne hs]
      exact ih.2 s
  | swept h floor ih =>
    refine ⟨ih.1.mono fun key entry hget => ?_, ih.2⟩
    rw [KeyIndex.get?_sweep h.wellFormed] at hget
    exact (Option.filter_eq_some_iff.1 hget).1
  | closed _ ih =>
    refine ⟨ih.1.mono fun key entry hget => ?_, ih.2⟩
    rwa [KeyIndex.get?_close] at hget

end World

/-- After every run of calls from an empty index, and at every moment when calls under the same
settings take turns, each entry has the time that its own version tells. -/
theorem entry_times_match_versions :
    (∀ (p : Partition) (calls : List Call), p.index.keys = [] → ∀ key entry,
      (p.run calls).index.get? key = some entry →
      entry.version.Tells p.settings.timeColumn entry.time) ∧
    ∀ (ι : Type) [DecidableEq ι] (settings : Settings) (w : World ι), w.Reached settings →
      ∀ key entry, w.index.get? key = some entry →
        entry.version.Tells settings.timeColumn entry.time := by
  refine ⟨fun p calls empty key entry hget => ?_, fun ι _ settings w h => h.told.1⟩
  rw [p.time_of_run empty hget]
  exact Version.tells_timeOf _ _

open Sample in
/-- The addition of a segment that is going to be refused, before its first turn. -/
def Sample.tearing : World Unit :=
  let idle : World Unit := .idle { backend := .sorted {} }
  { idle with
    task := Function.update idle.task ()
      (.offering (offering 2) [record 1 0 (.int 6), record 2 1 (.int 1), record 1 0 (.int 7),
        record 1 2 (.string "now")] [] none) }

open Sample in
/-- A roll-back puts a former version of key 1 back: all at once the one from before the
operation, or, with its first write undone and the others still to come, the one that the
operation has written first. -/
theorem entry_times_match_versions_tearing :
    (∃ entry, ((partition { backend := .sorted {} }).run
          [.change (.add (segment 1 [record 1 0 (.int 5)])), .change (.add torn)]).index.get?
        (key 1) = some entry ∧
      entry.version = ⟨[("at", .full (.int 5))]⟩ ∧ entry.version.Tells (some "at") entry.time) ∧
    ∃ entry, (tearing.run (List.replicate 5 ())).index.get? (key 1) = some entry ∧
      entry.version = ⟨[("at", .full (.int 6))]⟩ ∧ entry.version.Tells (some "at") entry.time := by
  obtain ⟨hruns, hworlds⟩ := entry_times_match_versions
  have hsettings : (partition { backend := .sorted {} }).settings = settings := rfl
  have hcall : (partition { backend := .sorted {} }).callTask? (.change (.add torn)) = some _ := rfl
  have hbegun : World.Reached settings tearing :=
    .begun (.initially (i := { backend := .sorted {} }) rfl) rfl hsettings hcall
  have hreached := hbegun.run (List.replicate 5 ())
  have hback : ((partition { backend := .sorted {} }).run
      [.change (.add (segment 1 [record 1 0 (.int 5)])), .change (.add torn)]).index.get? (key 1) =
      some (.of ⟨⟨1, "s1"⟩, 0⟩ ⟨[("at", .full (.int 5))]⟩ (some "at")) := rfl
  have hmidway : (tearing.run (List.replicate 5 ())).index.get? (key 1) =
      some (.of ⟨⟨2, "s2"⟩, 0⟩ ⟨[("at", .full (.int 6))]⟩ (some "at")) := rfl
  exact ⟨⟨_, hback, rfl, hruns _ _ rfl _ _ hback⟩, _, hmidway, rfl,
    hworlds _ _ _ hreached _ _ hmidway⟩

end PartitionKeys

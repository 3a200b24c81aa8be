/-
# A removal and an addition that take turns

A segment is removed, alone or as the end of a replacement, while another segment is added.
The removal drops a key only while it points at the segment that goes, and the addition may
have taken the key over before.  If the addition then fails, it puts the displaced entry
back, and the removal does not come by again.  The main result says that this is the only
way in which an entry of the removed segment is left over.
-/
import PartitionKeys.Proofs.Interleaving.FailedAdds

namespace PartitionKeys

/-! ## The turns of a removal -/

namespace Task

/-- The records whose keys are still to be dropped. -/
def toDrop : Task → List Record
  | .offering _ _ _ (some (_, records)) => records
  | .dropping _ _ rest => rest
  | _ => []

/-- Whether a task undoes. -/
def isUndoing : Task → Bool
  | .undoing .. => true
  | _ => false

/-- Whether a task drops keys. -/
def isDropping : Task → Bool
  | .dropping .. => true
  | _ => false

/-- A task that removes a segment with these records: it drops keys, or it still offers the
records of another segment before. -/
def Removes (hash : KeyHash) (old : SegmentId) (owned : List Record) : Task → Prop
  | .offering o _ _ (some (segment, records)) =>
    o.hash = hash ∧ o.segment.same old = false ∧ segment = old ∧ records = owned
  | .dropping used segment _ => used = hash ∧ segment = old
  | _ => False

/-- What a turn of a removal does to the entries of the segment that goes. -/
inductive RemovalTurn (hash : KeyHash) (old : SegmentId) (before after : IndexKey → Option Entry)
    (task next : Task) : Prop
  | aborted (undoing : next.isUndoing = true)
  | passed (toDrop : next.toDrop = task.toDrop)
    (entries : ∀ key entry, entry.location.isIn old = true → after key = some entry →
      before key = some entry)
    (still : task.isDropping = true → after = before)
  | dropped (record : Record) (toDrop : task.toDrop = record :: next.toDrop)
    (entries : ∀ key entry, entry.location.isIn old = true →
      (after key = some entry ↔ before key = some entry ∧ ¬ record.Matches hash key entry))

lemma Stepped.isUndoing {before after : IndexKey → Option Entry} {task next : Task}
    (h : Stepped before task after next) (hundoing : task.isUndoing = true) :
    next.isUndoing = true := by
  cases h with
  | done => exact hundoing
  | refused | restored | skipped => rfl
  | rejected | written | turned | dropped => cases hundoing

lemma Stepped.isDropping {before after : IndexKey → Option Entry} {task next : Task}
    (h : Stepped before task after next) (hdropping : task.isDropping = true) :
    next.isDropping = true := by
  cases h with
  | done => exact hdropping
  | dropped => rfl
  | refused | rejected | written | turned | restored | skipped => cases hdropping

lemma Stepped.removes {before after : IndexKey → Option Entry} {task next : Task}
    {hash : KeyHash} {old : SegmentId} {owned : List Record} (h : Stepped before task after next)
    (hremoves : task.Removes hash old owned) (hgoes : next.isUndoing = false) :
    next.Removes hash old owned := by
  cases h with
  | done => exact hremoves
  | refused => cases hgoes
  | rejected _ _ _ _ old' | written _ _ _ _ old' =>
    cases old' with
    | none => exact hremoves.elim
    | some old' => exact hremoves
  | turned =>
    obtain ⟨hhash, -, hold, -⟩ := hremoves
    exact ⟨hhash, hold⟩
  | dropped => exact hremoves
  | restored | skipped => exact hremoves.elim

lemma Stepped.removalTurn {before after : IndexKey → Option Entry} {task next : Task}
    {hash : KeyHash} {old : SegmentId} {owned : List Record} (h : Stepped before task after next)
    (hremoves : task.Removes hash old owned) : RemovalTurn hash old before after task next := by
  cases h with
  | done => exact .passed rfl (fun _ _ _ h => h) fun _ => rfl
  | refused => exact .aborted rfl
  | rejected _ _ _ _ old' =>
    cases old' with
    | none => exact hremoves.elim
    | some old' => exact .passed rfl (fun _ _ _ h => h) fun _ => rfl
  | written o record _ _ old' r entry resolution held =>
    cases old' with
    | none => exact hremoves.elim
    | some old' =>
      refine .passed rfl (fun key other hin hget => ?_) fun h => nomatch h
      by_cases hkey : key = o.key record
      · -- the new entry is not in the segment that goes
        subst hkey
        rw [Function.update_self] at hget
        cases hget
        rw [resolve_location resolution held] at hin
        exact absurd hin (Bool.eq_false_iff.1 hremoves.2.1)
      · rwa [Function.update_of_ne hkey] at hget
  | turned => exact .passed rfl (fun _ _ _ h => h) fun _ => rfl
  | dropped used segment record rest after entries =>
    obtain ⟨rfl, rfl⟩ := hremoves
    refine .dropped record rfl fun key entry hin => ?_
    simp only [entries, hin, true_and]
  | restored | skipped => exact hremoves.elim

/-- A task that undoes leaves the entries alone or puts one back. -/
lemma Stepped.of_undoing {before after : IndexKey → Option Entry} {task next : Task}
    (h : Stepped before task after next) (hundoing : task.isUndoing = true) :
    after = before ∨ ∃ write rest skipped entry, task = .undoing (write :: rest) skipped ∧
      before write.key = some entry ∧ entry.location.same write.written = true ∧
      after = Function.update before write.key write.displaced := by
  cases h with
  | done => exact .inl rfl
  | restored write rest skipped entry hget hsame =>
    exact .inr ⟨write, rest, skipped, entry, rfl, hget, hsame, rfl⟩
  | skipped => exact .inl rfl
  | refused | rejected | written | turned | dropped => cases hundoing

end Task

/-! ## The two tasks -/

/-- Who takes a turn. -/
inductive Role where
  | remover
  | adder
deriving DecidableEq

namespace World

variable {hash : KeyHash} {old added : SegmentId} {owned : List Record} {w : World Role}

/-- A removal and an addition that are about to start. -/
def removing (i : KeyIndex) (removal : Task) (o : Offering) (records : List Record) :
    World Role where
  index := i
  task
    | .remover => removal
    | .adder => .offering o records [] none

/-- The addition is about to put an entry of the removed segment back, and the removal will not
come by any more. -/
def Revives (w : World Role) (hash : KeyHash) (old : SegmentId) : Prop :=
  ∃ write rest skipped entry, w.task .adder = .undoing (write :: rest) skipped ∧
    w.index.pointsAt write.key write.written = true ∧ write.displaced = some entry ∧
    entry.location.isIn old = true ∧ ¬ Covered hash (w.task .remover).toDrop write.key entry

/-- What holds at every turn, as long as the removal goes on. -/
structure Contest (hash : KeyHash) (old added : SegmentId) (owned : List Record)
    (w : World Role) : Prop where
  removes : (w.task .remover).Removes hash old owned
  adds : (w.task .adder).Adds added
  located : ∀ write ∈ (w.task .adder).live, write.written.isIn added = true
  held : ∀ key entry, w.index.get? key = some entry → entry.location.isIn old = true →
    Covered hash owned key entry
  displaced : ∀ write ∈ (w.task .adder).live, ∀ entry, write.displaced = some entry →
    entry.location.isIn old = true → Covered hash owned write.key entry

/-- Every entry of the segment that goes will still be dropped. -/
def Guarded (w : World Role) (hash : KeyHash) (old : SegmentId) : Prop :=
  ∀ key entry, w.index.get? key = some entry → entry.location.isIn old = true →
    Covered hash (w.task .remover).toDrop key entry

lemma step_adder_remover (w : World Role) : (w.step .adder).task .remover = w.task .remover :=
  step_task_of_ne Role.noConfusion w

lemma step_remover_adder (w : World Role) : (w.step .remover).task .adder = w.task .adder :=
  step_task_of_ne Role.noConfusion w

lemma run_isUndoing (schedule : List Role) {t : Role} (h : (w.task t).isUndoing = true) :
    ((w.run schedule).task t).isUndoing = true := by
  refine run_induction (motive := fun w => (w.task t).isUndoing = true) ?_ schedule h
  intro w s hw
  by_cases hs : t = s
  · subst hs
    exact (w.stepped t).isUndoing hw
  · rw [step_task_of_ne hs]
    exact hw

/-! ## A turn of the removal -/

lemma Contest.step_remover (h : Contest hash old added owned w)
    (hgoes : ((w.step .remover).task .remover).isUndoing = false) :
    Contest hash old added owned (w.step .remover) := by
  have hstepped := w.stepped .remover
  refine ⟨hstepped.removes h.removes hgoes, ?_, ?_, fun key entry hget hin => ?_, ?_⟩
  · rw [step_remover_adder]
    exact h.adds
  · rw [step_remover_adder]
    exact h.located
  · cases hstepped.removalTurn h.removes with
    | aborted undoing =>
      rw [hgoes] at undoing
      cases undoing
    | passed _ entries => exact h.held key entry (entries key entry hin hget) hin
    | dropped _ _ entries => exact h.held key entry ((entries key entry hin).1 hget).1 hin
  · rw [step_remover_adder]
    exact h.displaced

lemma Guarded.step_remover (hguarded : Guarded w hash old) (h : Contest hash old added owned w)
    (hgoes : ((w.step .remover).task .remover).isUndoing = false) :
    Guarded (w.step .remover) hash old := by
  intro key entry hget hin
  cases (w.stepped .remover).removalTurn h.removes with
  | aborted undoing =>
    rw [hgoes] at undoing
    cases undoing
  | passed toDrop entries =>
    rw [toDrop]
    exact hguarded key entry (entries key entry hin hget) hin
  | dropped record toDrop entries =>
    obtain ⟨hbefore, hunmatched⟩ := (entries key entry hin).1 hget
    obtain ⟨other, hmem, hmatch⟩ := hguarded key entry hbefore hin
    rw [toDrop] at hmem
    rcases List.mem_cons.1 hmem with rfl | hmem
    · exact absurd hmatch hunmatched
    · exact ⟨other, hmem, hmatch⟩

/-! ## A turn of the addition -/

lemma not_isIn_of_apart {l : Location} (apart : added.same old = false)
    (h : l.isIn added = true) : l.isIn old = false := by
  simp only [Location.isIn, SegmentId.same, beq_iff_eq, beq_eq_false_iff_ne] at apart h ⊢
  rw [h]
  exact apart

/-- After a turn of the addition, an entry of the segment that goes was there before, or it has
just been put back. -/
lemma Contest.entry_of_step_adder (apart : added.same old = false)
    (h : Contest hash old added owned w) {key : IndexKey} {entry : Entry}
    (hget : (w.step .adder).index.get? key = some entry) (hin : entry.location.isIn old = true) :
    w.index.get? key = some entry ∨ ∃ write rest skipped,
      w.task .adder = .undoing (write :: rest) skipped ∧
      w.index.pointsAt write.key write.written = true ∧ write.key = key ∧
      write.displaced = some entry := by
  cases (h.adds.journaled (w.stepped .adder)).2 with
  | idle entries => exact .inl (by rwa [← entries])
  | wrote write other entries hadded =>
    rw [entries] at hget
    by_cases hkey : key = write.key
    · subst hkey
      rw [Function.update_self] at hget
      cases hget
      rw [not_isIn_of_apart apart hadded] at hin
      cases hin
    · rw [Function.update_of_ne hkey] at hget
      exact .inl hget
  | undone write held entries hheld hsame _ _ undoing =>
    rw [entries] at hget
    by_cases hkey : key = write.key
    · subst hkey
      rw [Function.update_self] at hget
      exact .inr ⟨write, _, _, undoing, KeyIndex.pointsAt_iff.2 ⟨held, hheld, hsame⟩, rfl, hget⟩
    · rw [Function.update_of_ne hkey] at hget
      exact .inl hget
  | passed _ entries => exact .inl (by rwa [← entries])

lemma Contest.step_adder (apart : added.same old = false) (h : Contest hash old added owned w) :
    Contest hash old added owned (w.step .adder) := by
  obtain ⟨hadds, hturn⟩ := h.adds.journaled (w.stepped .adder)
  refine ⟨by rw [step_adder_remover]; exact h.removes, hadds, ?_, ?_, ?_⟩
  · intro write hmem
    rcases hturn.of_mem_live hmem with hmem | ⟨hin, -⟩
    · exact h.located write hmem
    · exact hin
  · intro key entry hget hin
    rcases h.entry_of_step_adder apart hget hin with
      hbefore | ⟨write, rest, skipped, htask, -, rfl, hdisplaced⟩
    · exact h.held key entry hbefore hin
    · exact h.displaced write (by rw [htask]; exact List.mem_cons_self) entry hdisplaced hin
  · intro write hmem entry hget hin
    rcases hturn.of_mem_live hmem with hmem | ⟨-, hdisplaced⟩
    · exact h.displaced write hmem entry hget hin
    · exact h.held write.key entry (by rwa [← hdisplaced]) hin

lemma Guarded.step_adder (apart : added.same old = false) (hguarded : Guarded w hash old)
    (h : Contest hash old added owned w) (hnot : ¬ w.Revives hash old) :
    Guarded (w.step .adder) hash old := by
  intro key entry hget hin
  rw [step_adder_remover]
  rcases h.entry_of_step_adder apart hget hin with
    hbefore | ⟨write, rest, skipped, htask, hpoints, rfl, hdisplaced⟩
  · exact hguarded key entry hbefore hin
  · by_contra huncovered
    exact hnot ⟨write, rest, skipped, entry, htask, hpoints, hdisplaced, hin, huncovered⟩

/-! ## Whole runs -/

lemma Contest.step (apart : added.same old = false) (h : Contest hash old added owned w)
    (t : Role) (hgoes : ((w.step t).task .remover).isUndoing = false) :
    Contest hash old added owned (w.step t) := by
  cases t with
  | remover => exact h.step_remover hgoes
  | adder => exact h.step_adder apart

/-- A removal that completes has not been aborted before. -/
lemma not_isUndoing_of_run (schedule : List Role) {t : Role}
    (h : ((w.run schedule).task t).isUndoing = false) : (w.task t).isUndoing = false := by
  by_contra hundoing
  rw [run_isUndoing schedule ((Bool.not_eq_false _).mp hundoing)] at h
  cases h

lemma Contest.run (apart : added.same old = false) (schedule : List Role)
    (h : Contest hash old added owned w)
    (hgoes : ((w.run schedule).task .remover).isUndoing = false) :
    Contest hash old added owned (w.run schedule) := by
  induction schedule generalizing w with
  | nil => exact h
  | cons t rest ih => exact ih (h.step apart t (not_isUndoing_of_run rest hgoes)) hgoes

/-- If an entry of the removed segment is left over, then it was put back at some turn when the
removal had passed. -/
lemma exists_revival (apart : added.same old = false) (schedule : List Role)
    (h : Contest hash old added owned w) (hguarded : Guarded w hash old)
    (completes : (w.run schedule).task .remover = .dropping hash old []) {key : IndexKey}
    {entry : Entry} (hget : (w.run schedule).index.get? key = some entry)
    (hin : entry.location.isIn old = true) :
    ∃ before after, schedule = before ++ .adder :: after ∧ (w.run before).Revives hash old := by
  induction schedule generalizing w with
  | nil =>
    obtain ⟨record, hmem, -⟩ := hguarded key entry hget hin
    have htask : w.task .remover = .dropping hash old [] := completes
    rw [htask] at hmem
    exact absurd hmem List.not_mem_nil
  | cons t rest ih =>
    -- the first turn after which an entry is not guarded is the one that puts it back
    by_cases hrevives : t = .adder ∧ w.Revives hash old
    · exact ⟨[], rest, by rw [hrevives.1]; rfl, hrevives.2⟩
    · have hgoes : ((w.step t).task .remover).isUndoing = false := by
        refine not_isUndoing_of_run rest ?_
        rw [← run_cons, completes]
        rfl
      have hguarded : Guarded (w.step t) hash old := by
        cases t with
        | remover => exact hguarded.step_remover h hgoes
        | adder => exact hguarded.step_adder apart h fun hw => hrevives ⟨rfl, hw⟩
      obtain ⟨before, after, rfl, hw⟩ := ih (h.step apart t hgoes) hguarded completes hget
      exact ⟨t :: before, after, rfl, hw⟩

/-! ## An entry that has been put back stays -/

/-- An entry of the removed segment that no task will touch any more. -/
structure Stray (hash : KeyHash) (old : SegmentId) (key : IndexKey) (entry : Entry)
    (w : World Role) : Prop where
  there : w.index.get? key = some entry
  hin : entry.location.isIn old = true
  uncovered : ¬ Covered hash (w.task .remover).toDrop key entry
  undoing : (w.task .adder).isUndoing = true
  dropping : (w.task .remover).isDropping = true

lemma not_isUndoing_of_isDropping {task : Task} (h : task.isDropping = true) :
    task.isUndoing = false := by
  cases task with
  | dropping => rfl
  | offering | undoing => cases h

lemma Stray.step (apart : added.same old = false) {key : IndexKey} {entry : Entry}
    (hstray : Stray hash old key entry w) (h : Contest hash old added owned w) (t : Role) :
    Stray hash old key entry (w.step t) := by
  have hstepped := w.stepped t
  cases t with
  | remover =>
    have hdropping := hstepped.isDropping hstray.dropping
    cases hstepped.removalTurn h.removes with
    | aborted undoing =>
      rw [not_isUndoing_of_isDropping hdropping] at undoing
      cases undoing
    | passed toDrop _ still =>
      refine ⟨?_, hstray.hin, ?_, ?_, hdropping⟩
      · rw [still hstray.dropping]
        exact hstray.there
      · rw [toDrop]
        exact hstray.uncovered
      · rw [step_remover_adder]
        exact hstray.undoing
    | dropped record toDrop entries =>
      refine ⟨?_, hstray.hin, ?_, ?_, hdropping⟩
      · refine (entries key entry hstray.hin).2 ⟨hstray.there, fun hmatch => ?_⟩
        exact hstray.uncovered ⟨record, by rw [toDrop]; exact List.mem_cons_self, hmatch⟩
      · rintro ⟨other, hmem, hmatch⟩
        exact hstray.uncovered
          ⟨other, by rw [toDrop]; exact List.mem_cons_of_mem _ hmem, hmatch⟩
      · rw [step_remover_adder]
        exact hstray.undoing
  | adder =>
    refine ⟨?_, hstray.hin, ?_, hstepped.isUndoing hstray.undoing, ?_⟩
    · rcases hstepped.of_undoing hstray.undoing with
        hsame | ⟨write, rest, skipped, held, htask, hheld, hsame, hentries⟩
      · rw [hsame]
        exact hstray.there
      · -- the addition finds its own writes only, and this entry is none of them
        have hne : key ≠ write.key := by
          rintro rfl
          have hadded := h.located write (by rw [htask]; exact List.mem_cons_self)
          rw [hstray.there] at hheld
          cases hheld
          have hold := not_isIn_of_apart apart hadded
          rw [← Location.isIn_of_same hsame, hstray.hin] at hold
          cases hold
        rw [hentries, Function.update_of_ne hne]
        exact hstray.there
    · rw [step_adder_remover]
      exact hstray.uncovered
    · rw [step_adder_remover]
      exact hstray.dropping

lemma Stray.run (apart : added.same old = false) {key : IndexKey} {entry : Entry}
    (schedule : List Role) (hstray : Stray hash old key entry w)
    (h : Contest hash old added owned w) : Stray hash old key entry (w.run schedule) := by
  refine (run_induction (motive := fun w => Contest hash old added owned w ∧
    Stray hash old key entry w) ?_ schedule ⟨h, hstray⟩).2
  rintro w t ⟨hcontest, hstray⟩
  have hnext := hstray.step apart hcontest t
  refine ⟨hcontest.step apart t ?_, hnext⟩
  exact not_isUndoing_of_isDropping hnext.dropping

/-- What is put back when the removal has passed is such an entry. -/
lemma Revives.stray (hrevives : w.Revives hash old) (h : Contest hash old added owned w) :
    ∃ key entry, Stray hash old key entry (w.step .adder) := by
  obtain ⟨write, rest, skipped, entry, htask, hpoints, hdisplaced, hin, huncovered⟩ := hrevives
  have hentries : (w.step .adder).index.get? write.key = some entry := by
    simp only [step, htask, Task.step, KeyIndex.get?_restore, if_pos hpoints, hdisplaced,
      Function.update_self]
  have hdropping : (w.task .remover).isDropping = true := by
    have hcovered := h.displaced write (by rw [htask]; exact List.mem_cons_self) entry hdisplaced
      hin
    have hremoves := h.removes
    generalize w.task .remover = task at hremoves huncovered
    cases task with
    | dropping => rfl
    | undoing => exact hremoves.elim
    | offering _ _ _ old' =>
      cases old' with
      | none => exact hremoves.elim
      | some old' =>
        -- while the removal still offers, all the records are yet to be dropped
        obtain ⟨-, -, -, rfl⟩ := hremoves
        exact absurd hcovered huncovered
  refine ⟨write.key, entry, hentries, hin, ?_, ?_, ?_⟩
  · rw [step_adder_remover]
    exact huncovered
  · exact (w.stepped .adder).isUndoing (by rw [htask]; rfl)
  · rw [step_adder_remover]
    exact hdropping

/-! ## The result -/

lemma contest_removing {i : KeyIndex} {removal : Task} {o : Offering}
    (removes : removal.Removes hash old owned)
    (covered : ∀ key entry, i.get? key = some entry → entry.location.isIn old = true →
      Covered hash owned key entry) (records : List Record) :
    Contest hash old o.segment owned (removing i removal o records) where
  removes := removes
  adds := ⟨rfl, rfl⟩
  located _ hmem := absurd hmem List.not_mem_nil
  held := covered
  displaced _ hmem := absurd hmem List.not_mem_nil

/-- A segment is removed, alone or as the end of a replacement, while another one is added, and
the removal completes.  An entry of the removed segment is left over exactly if the addition
failed and at some turn put back an entry that the removal had passed by.  In particular
nothing is left over if the addition succeeds. -/
theorem removed_segment_returns_iff {i : KeyIndex} {removal : Task} {o : Offering}
    (removes : removal.Removes hash old owned) (all : removal.toDrop = owned)
    (apart : o.segment.same old = false)
    (covered : ∀ key entry, i.get? key = some entry → entry.location.isIn old = true →
      Covered hash owned key entry)
    (records : List Record) (schedule : List Role)
    (completes : ((removing i removal o records).run schedule).task .remover =
      .dropping hash old []) :
    ((∃ key entry, ((removing i removal o records).run schedule).index.get? key = some entry ∧
        entry.location.isIn old = true) ↔
      ∃ before after, schedule = before ++ .adder :: after ∧
        ((removing i removal o records).run before).Revives hash old) ∧
    ((((removing i removal o records).run schedule).task .adder).isUndoing = false →
      ∀ key entry, ((removing i removal o records).run schedule).index.get? key = some entry →
        entry.location.isIn old = false) := by
  have hcontest := contest_removing (o := o) removes covered records
  have hguarded : Guarded (removing i removal o records) hash old := by
    intro key entry hget hin
    rw [← all] at covered
    exact covered key entry hget hin
  have hleft : ∀ key entry,
      ((removing i removal o records).run schedule).index.get? key = some entry →
      entry.location.isIn old = true → ∃ before after, schedule = before ++ .adder :: after ∧
        ((removing i removal o records).run before).Revives hash old :=
    fun key entry hget hin => exists_revival apart schedule hcontest hguarded completes hget hin
  refine ⟨⟨fun ⟨key, entry, hget, hin⟩ => hleft key entry hget hin, ?_⟩, ?_⟩
  · rintro ⟨before, after, rfl, hrevives⟩
    have hgoes : (((removing i removal o records).run before).task .remover).isUndoing =
        false := by
      refine not_isUndoing_of_run (.adder :: after) ?_
      rw [← run_append, completes]
      rfl
    have hbefore := hcontest.run apart before hgoes
    obtain ⟨key, entry, hstray⟩ := hrevives.stray hbefore
    have hend := hstray.run apart after (hbefore.step_adder apart)
    rw [run_append, run_cons]
    exact ⟨key, entry, hend.there, hend.hin⟩
  · intro hsucceeds key entry hget
    by_contra hin
    obtain ⟨before, after, rfl, write, rest, skipped, _, htask, -⟩ :=
      hleft key entry hget ((Bool.not_eq_false _).mp hin)
    rw [run_append] at hsucceeds
    have hundoing := not_isUndoing_of_run (.adder :: after) hsucceeds
    rw [htask] at hundoing
    cases hundoing

open Sample in
/-- The only entry of the small table is the one of the record in its first segment. -/
lemma covered_started (k : IndexKey) (entry : Entry) (hget : started.index.get? k = some entry)
    (_ : entry.location.isIn ⟨1, "s1"⟩ = true) : Covered .whole [record 1 0 (.int 5)] k entry := by
  refine ⟨_, List.mem_singleton_self _, ?_⟩
  change List.lookup k [(key 1, _)] = some entry at hget
  by_cases hk : k = key 1
  · subst hk
    rw [List.lookup_cons_self] at hget
    cases hget
    exact ⟨rfl, rfl⟩
  · rw [Assoc.lookup_cons_of_ne hk] at hget
    cases hget

open Sample in
/-- The addition takes key 1 over and succeeds, so the removal has nothing to drop. -/
theorem removed_segment_stays_away :
    ((removing started.index (.dropping .whole ⟨1, "s1"⟩ [record 1 0 (.int 5)]) (offering 2)
        [record 1 0 (.int 6)]).run [.adder, .remover]).task .remover =
        .dropping .whole ⟨1, "s1"⟩ [] ∧
      ∀ key entry, ((removing started.index (.dropping .whole ⟨1, "s1"⟩ [record 1 0 (.int 5)])
        (offering 2) [record 1 0 (.int 6)]).run [.adder, .remover]).index.get? key =
          some entry → entry.location.isIn ⟨1, "s1"⟩ = false := by
  have removes : (Task.dropping .whole ⟨1, "s1"⟩ [record 1 0 (.int 5)]).Removes .whole ⟨1, "s1"⟩
      [record 1 0 (.int 5)] := ⟨rfl, rfl⟩
  exact ⟨rfl, (removed_segment_returns_iff removes rfl (by decide) covered_started _ _ rfl).2 rfl⟩

open Sample in
/-- If the addition takes key 1 over, fails, and undoes after the removal, then the entry of
the removed segment is back. -/
theorem removed_segment_can_return :
    ¬ ∀ (i : KeyIndex) (hash : KeyHash) (old : SegmentId) (owned : List Record) (removal : Task)
      (o : Offering) (records : List Record) (schedule : List Role),
      removal.Removes hash old owned → removal.toDrop = owned → o.segment.same old = false →
      (∀ key entry, i.get? key = some entry → entry.location.isIn old = true →
        Covered hash owned key entry) →
      ((removing i removal o records).run schedule).task .remover = .dropping hash old [] →
      (((removing i removal o records).run schedule).task .adder).isDone = true →
      ∀ key entry, ((removing i removal o records).run schedule).index.get? key = some entry →
        entry.location.isIn old = false := by
  intro h
  have hkey := h started.index .whole ⟨1, "s1"⟩ [record 1 0 (.int 5)]
    (.dropping .whole ⟨1, "s1"⟩ [record 1 0 (.int 5)]) (offering 2) (twins true)
    [.adder, .adder, .remover, .adder] ⟨rfl, rfl⟩ rfl (by decide) covered_started rfl rfl (key 1)
    (.of ⟨⟨1, "s1"⟩, 0⟩ ⟨[("at", .full (.int 5))]⟩ (some "at")) rfl
  exact absurd hkey (by decide)

end World

end PartitionKeys

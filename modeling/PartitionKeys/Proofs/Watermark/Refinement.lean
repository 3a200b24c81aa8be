/-
# Stores in files beside each other

All partitions of a table keep their watermarks in one directory.  Here each of them calls its
store, and they take turns: a turn is one call, or one step of persisting.  Whatever the
schedule, each of them gets the answers of a store in memory that is its own.
-/
import PartitionKeys.Partition.Basic
import PartitionKeys.Proofs.Watermark.Calls
import Mathlib.Logic.Function.Basic

namespace PartitionKeys

/-- What is left to do for one who calls a store, and the answers so far. -/
structure StoreTask where
  calls : List StoreCall
  /-- The steps of persisting that are still to be done. -/
  steps : List FileStore.Step := []
  answers : List (Except StoreError StoreAnswer) := []

namespace StoreTask

/-- The next step, or the next call.  A call that persists begins with no step done. -/
def turn (s : FileStore) (fs : FileSystem) : StoreTask → StoreTask × FileSystem
  | ⟨calls, step :: rest, answers⟩ =>
    match step.run s fs with
    | .ok fs => (⟨calls, rest, if rest.isEmpty then answers ++ [.ok .done] else answers⟩, fs)
    | .error e => (⟨calls, [], answers ++ [.error e]⟩, fs)
  | ⟨[], [], answers⟩ => (⟨[], [], answers⟩, fs)
  | ⟨.persist time :: calls, [], answers⟩ => (⟨calls, s.persistSteps time, answers⟩, fs)
  | ⟨call :: calls, [], answers⟩ =>
    (⟨calls, [], answers ++ [(s.call fs call).1]⟩, (s.call fs call).2)

/-- The most turns that calls take. -/
def turnsFor (s : FileStore) : List StoreCall → Nat
  | [] => 0
  | .persist time :: calls => (s.persistSteps time).length + 1 + turnsFor s calls
  | _ :: calls => 1 + turnsFor s calls

/-- The most turns that are left. -/
def turnsLeft (s : FileStore) (task : StoreTask) : Nat :=
  task.steps.length + turnsFor s task.calls

variable {s : FileStore} {fs : FileSystem} {task : StoreTask}

lemma turn_step {step : FileStore.Step} {after : FileSystem} (h : step.run s fs = .ok after)
    (calls : List StoreCall) (rest : List FileStore.Step)
    (answers : List (Except StoreError StoreAnswer)) :
    turn s fs ⟨calls, step :: rest, answers⟩ =
      (⟨calls, rest, if rest.isEmpty then answers ++ [.ok .done] else answers⟩, after) := by
  rw [turn, h]

lemma turn_step_error {step : FileStore.Step} {e : StoreError} (h : step.run s fs = .error e)
    (calls : List StoreCall) (rest : List FileStore.Step)
    (answers : List (Except StoreError StoreAnswer)) :
    turn s fs ⟨calls, step :: rest, answers⟩ = (⟨calls, [], answers ++ [.error e]⟩, fs) := by
  rw [turn, h]

lemma turnsLeft_turn (s : FileStore) (fs : FileSystem) (task : StoreTask) :
    (turn s fs task).1.turnsLeft s ≤ task.turnsLeft s - 1 := by
  obtain ⟨calls, steps, answers⟩ := task
  cases steps with
  | cons step rest =>
    cases hrun : step.run s fs with
    | ok after => simp [turn_step hrun, turnsLeft]
    | error e => simp [turn_step_error hrun, turnsLeft]
  | nil =>
    cases calls with
    | nil => simp [turn, turnsLeft, turnsFor]
    | cons call calls =>
      cases call <;> simp only [turn, turnsLeft, turnsFor, List.length_nil] <;> omega

/-! ## Turns in a row -/

/-- What a task does with so many turns, if nobody else takes one. -/
def alone (s : FileStore) : Nat → FileSystem → StoreTask → StoreTask × FileSystem
  | 0, fs, task => (task, fs)
  | n + 1, fs, task => alone s n (turn s fs task).2 (turn s fs task).1

/-- The steps of persisting one after the other are what persisting does. -/
lemma exists_alone_steps (calls : List StoreCall) (answers : List (Except StoreError StoreAnswer))
    {steps : List FileStore.Step} (h : steps ≠ []) (fs : FileSystem) :
    ∃ n, alone s n fs ⟨calls, steps, answers⟩ =
      (⟨calls, [], answers ++ [(s.runSteps steps fs).1.map fun _ => .done]⟩,
        (s.runSteps steps fs).2) := by
  induction steps generalizing fs with
  | nil => exact absurd rfl h
  | cons step rest ih =>
    cases hrun : step.run s fs with
    | error e =>
      refine ⟨1, ?_⟩
      rw [alone, turn_step_error hrun, FileStore.runSteps, hrun]
      rfl
    | ok after =>
      have hsteps : s.runSteps (step :: rest) fs = s.runSteps rest after := by
        rw [FileStore.runSteps, hrun]
      rw [hsteps]
      cases rest with
      | nil =>
        refine ⟨1, ?_⟩
        rw [alone, turn_step hrun]
        rfl
      | cons next rest =>
        obtain ⟨n, hturns⟩ := ih (by simp) after
        refine ⟨n + 1, ?_⟩
        rw [alone, turn_step hrun]
        exact hturns

/-- Enough turns in a row are a call, whether it succeeds or fails. -/
lemma exists_alone_call (call : StoreCall) (calls : List StoreCall)
    (answers : List (Except StoreError StoreAnswer)) (fs : FileSystem) :
    ∃ n, alone s n fs ⟨call :: calls, [], answers⟩ =
      (⟨calls, [], answers ++ [(s.call fs call).1]⟩, (s.call fs call).2) := by
  cases call with
  | load default => exact ⟨1, rfl⟩
  | delete => exact ⟨1, rfl⟩
  | persist time =>
    have hsteps : s.persistSteps time ≠ [] := by simp [FileStore.persistSteps]
    obtain ⟨n, hturns⟩ := exists_alone_steps (s := s) calls answers hsteps fs
    refine ⟨n + 1, ?_⟩
    rw [alone, turn, hturns, FileStore.call, FileStore.persist]

/-! ## Where a task stands -/

open FileStore FileSystem

variable {opened now after : FileSystem} {own : List Place} {program : List StoreCall}

/-- What a new store in memory answers, as answers of a store that can fail. -/
def expected (program : List StoreCall) : List (Except StoreError StoreAnswer) :=
  (({} : MemoryStore).answers program).map .ok

/-- A task that has answered as a store in memory and goes on as this store would.  While a
watermark is being persisted, the store holds what it held before the call. -/
inductive Sound (s : FileStore) (fs opened now : FileSystem) (program : List StoreCall) :
    StoreTask → Prop
  | absent (h : program = []) : Sound s fs opened now program ⟨[], [], []⟩
  | resting {target temporary : Place} {store : MemoryStore} {calls : List StoreCall}
      {answers : List (Except StoreError StoreAnswer)}
      (ready : s.Ready fs opened target temporary) (holds : Holds opened now target store.value)
      (total : answers ++ (store.answers calls).map .ok = expected program) :
      Sound s fs opened now program ⟨calls, [], answers⟩
  | persisting {target temporary : Place} {store : MemoryStore} {calls : List StoreCall}
      {steps : List FileStore.Step} {answers : List (Except StoreError StoreAnswer)}
      {time : Binary64} (ready : s.Ready fs opened target temporary)
      (holds : Holds opened now target store.value)
      (stage : Stage s opened now temporary time steps)
      (total : answers ++ (store.answers (.persist time :: calls)).map .ok = expected program) :
      Sound s fs opened now program ⟨calls, steps, answers⟩

namespace Sound

lemma start (h : program ≠ [] → ∃ target temporary, s.Ready fs opened target temporary) :
    Sound s fs opened fs program ⟨program, [], []⟩ := by
  by_cases hprogram : program = []
  · subst hprogram
    exact .absent rfl
  · obtain ⟨target, temporary, ready⟩ := h hprogram
    exact .resting ready ready.holds rfl

/-- The answers so far are those of the store in memory, and in the end there are no others. -/
lemma answers (sound : Sound s fs opened now program task) :
    task.answers <+: expected program ∧
      (task.turnsLeft s = 0 → task.answers = expected program) := by
  cases sound with
  | absent h =>
    subst h
    exact ⟨List.nil_prefix, fun _ => rfl⟩
  | @resting _ _ store calls _ ready holds total =>
    refine ⟨⟨_, total⟩, ?_⟩
    intro hleft
    cases calls with
    | nil => rw [← total]; simp [MemoryStore.answers]
    | cons call calls => cases call <;> simp [turnsLeft, turnsFor] at hleft
  | @persisting _ _ store calls steps _ time ready holds stage total =>
    refine ⟨⟨_, total⟩, ?_⟩
    intro hleft
    have hsteps : steps.length ≠ 0 := by simpa using stage.ne_nil
    simp only [turnsLeft] at hleft
    omega

/-- What others do where the store has no files makes no difference. -/
lemma frame (sound : Sound s fs opened now program task) (h : Touches opened own now after)
    (keeps : KeepsDirectories now after) (hown : ∀ place ∈ own, ¬ s.Uses opened place) :
    Sound s fs opened after program task := by
  cases sound with
  | absent hprogram => exact .absent hprogram
  | @resting target temporary store calls answers ready holds total =>
    have htarget : target ∉ own := fun hmem => hown target hmem (.inl ready.stands.target_at)
    exact .resting ready (holds.frame h keeps htarget ready.stands.target_free) total
  | @persisting target temporary store calls steps answers time ready holds stage total =>
    have htarget : target ∉ own := fun hmem => hown target hmem (.inl ready.stands.target_at)
    have htemporary : temporary ∉ own :=
      fun hmem => hown temporary hmem (.inr ready.stands.temporary_at)
    exact .persisting ready (holds.frame h keeps htarget ready.stands.target_free)
      (stage.frame h keeps htemporary ready.stands.temporary_free) total

section

variable {target temporary : Place} {store : MemoryStore} {calls : List StoreCall}
  {answers : List (Except StoreError StoreAnswer)} {time : Binary64}
  (between : Between fs opened now) (ready : s.Ready fs opened target temporary)
  (holds : Holds opened now target store.value)
include between ready holds

/-- A call in one turn. -/
lemma call {call : StoreCall}
    (total : answers ++ (store.answers (call :: calls)).map .ok = expected program) :
    Touches opened [target, temporary] now (s.call now call).2 ∧
      Sound s fs opened (s.call now call).2 program
        ⟨calls, [], answers ++ [(s.call now call).1]⟩ := by
  obtain ⟨after, hcall, htouches, hholds⟩ := FileStore.call_eq ready between holds call
  rw [hcall]
  refine ⟨htouches, .resting ready hholds ?_⟩
  rw [← total, List.append_assoc]
  rfl

/-- One step of persisting.  After the last one the call is answered. -/
lemma step {step : FileStore.Step} {rest : List FileStore.Step}
    (stage : Stage s opened now temporary time (step :: rest))
    (total : answers ++ (store.answers (.persist time :: calls)).map .ok = expected program) :
    Touches opened [target, temporary] now (turn s now ⟨calls, step :: rest, answers⟩).2 ∧
      Sound s fs opened (turn s now ⟨calls, step :: rest, answers⟩).2 program
        (turn s now ⟨calls, step :: rest, answers⟩).1 := by
  obtain ⟨after, hrun, htouches, hnext⟩ := stage.step between ready.stands holds
  rw [turn_step hrun]
  refine ⟨htouches, ?_⟩
  rcases hnext with ⟨rfl, hholds⟩ | ⟨hstage, hholds⟩
  · have hvalue : Holds opened after target (store.persist time).value := hholds
    refine .resting ready hvalue ?_
    rw [← total, List.isEmpty_nil, if_pos rfl, List.append_assoc]
    rfl
  · have hrest : rest.isEmpty = false := by simpa using hstage.ne_nil
    rw [hrest]
    exact .persisting ready hholds hstage total

end

/-- **A turn keeps a task sound**, and touches the files of its own store only. -/
lemma turn (between : Between fs opened now) (sound : Sound s fs opened now program task) :
    ∃ own, (∀ place ∈ own, s.Uses opened place ∧ opened.node? place ≠ some .directory) ∧
      Touches opened own now (StoreTask.turn s now task).2 ∧
      Sound s fs opened (StoreTask.turn s now task).2 program (StoreTask.turn s now task).1 := by
  have hnothing : ∀ place ∈ ([] : List Place),
      s.Uses opened place ∧ opened.node? place ≠ some .directory := by simp
  cases sound with
  | absent hprogram => exact ⟨[], hnothing, .refl opened _ now, .absent hprogram⟩
  | @resting target temporary store calls answers ready holds total =>
    have hown := ready.stands.uses_free
    cases calls with
    | nil => exact ⟨[], hnothing, .refl opened _ now, .resting ready holds total⟩
    | cons call calls =>
      cases call with
      | load default => exact ⟨[target, temporary], hown, Sound.call between ready holds total⟩
      | delete => exact ⟨[target, temporary], hown, Sound.call between ready holds total⟩
      | persist time =>
        exact ⟨[], hnothing, .refl opened _ now,
          .persisting ready holds (ready.stage between time) total⟩
  | @persisting target temporary store calls steps answers time ready holds stage total =>
    cases steps with
    | nil => exact absurd rfl stage.ne_nil
    | cons step rest =>
      have hsound := Sound.step between ready holds stage total
      exact ⟨[target, temporary], ready.stands.uses_free, hsound⟩

end Sound

end StoreTask

/-! ## Taking turns -/

/-- A file system, and tasks that share it. -/
structure FileWorld (ι : Type) where
  files : FileSystem
  task : ι → StoreTask

namespace FileWorld

open FileSystem FileStore

variable {ι : Type} {stores : ι → FileStore} {fs opened : FileSystem}
  {programs : ι → List StoreCall} {w : FileWorld ι}

/-- Everyone is about to make the first call. -/
def start (fs : FileSystem) (programs : ι → List StoreCall) : FileWorld ι :=
  ⟨fs, fun i => ⟨programs i, [], []⟩⟩

/-- All tasks are sound, and the directories are between those at the beginning and those at
the end. -/
structure Sound (stores : ι → FileStore) (fs opened : FileSystem)
    (programs : ι → List StoreCall) (w : FileWorld ι) : Prop where
  between : Between fs opened w.files
  tasks : ∀ i, (w.task i).Sound (stores i) fs opened w.files (programs i)

lemma Sound.start (between : Between fs opened fs)
    (ready : ∀ i, programs i ≠ [] → ∃ target temporary,
      (stores i).Ready fs opened target temporary) :
    Sound stores fs opened programs (FileWorld.start fs programs) where
  between := between
  tasks := fun i => .start (ready i)

/-- All stores have one parent, so that all make the same directories. -/
lemma exists_ready {parent : Path} (hparent : ∀ i, (stores i).path.parent = parent)
    (hfresh : ∀ i, programs i ≠ [] → (stores i).Fresh fs) :
    ∃ opened, Between fs opened fs ∧ ∀ i, programs i ≠ [] → ∃ target temporary,
      (stores i).Ready fs opened target temporary := by
  by_cases hbusy : ∃ i, programs i ≠ []
  · obtain ⟨i, hi⟩ := hbusy
    obtain ⟨opened, _, _, hopened, ready⟩ := (hfresh i hi).ready
    refine ⟨opened, ready.makes.between, ?_⟩
    intro j hj
    obtain ⟨same, target, temporary, hsame, hready⟩ := (hfresh j hj).ready
    rw [hparent, ← hparent i, hopened] at hsame
    obtain rfl : opened = same := Except.ok.inj hsame
    exact ⟨target, temporary, hready⟩
  · have hidle : Makes fs fs := fun _ => .inl rfl
    exact ⟨fs, hidle.between, fun i hi => absurd ⟨i, hi⟩ hbusy⟩

variable [DecidableEq ι]

/-- One takes a turn at its store. -/
def turn (stores : ι → FileStore) (w : FileWorld ι) (i : ι) : FileWorld ι where
  files := ((w.task i).turn (stores i) w.files).2
  task := Function.update w.task i ((w.task i).turn (stores i) w.files).1

/-- Turns by a schedule. -/
def run (stores : ι → FileStore) (w : FileWorld ι) (schedule : List ι) : FileWorld ι :=
  schedule.foldl (turn stores) w

lemma task_turn_self (stores : ι → FileStore) (w : FileWorld ι) (i : ι) :
    (w.turn stores i).task i = ((w.task i).turn (stores i) w.files).1 :=
  Function.update_self ..

lemma task_turn_of_ne {i j : ι} (h : j ≠ i) (stores : ι → FileStore) (w : FileWorld ι) :
    (w.turn stores i).task j = w.task j :=
  Function.update_of_ne h ..

namespace Sound

/-- The step: one takes a turn, and the files of the others are elsewhere. -/
lemma turn (sound : w.Sound stores fs opened programs)
    (hapart : ∀ i j, i ≠ j → (stores i).Apart (stores j)) (i : ι) :
    (w.turn stores i).Sound stores fs opened programs := by
  obtain ⟨own, hown, htouches, htask⟩ := (sound.tasks i).turn sound.between
  obtain ⟨hbetween, hkeeps⟩ := sound.between.touches htouches fun place hmem => (hown place hmem).2
  refine ⟨hbetween, ?_⟩
  intro j
  by_cases hj : j = i
  · subst hj
    rw [task_turn_self]
    exact htask
  · rw [task_turn_of_ne hj]
    refine (sound.tasks j).frame htouches hkeeps ?_
    exact fun place hmem => hapart i j (Ne.symm hj) opened place (hown place hmem).1

/-- The run: by induction on the schedule. -/
lemma run (sound : w.Sound stores fs opened programs)
    (hapart : ∀ i j, i ≠ j → (stores i).Apart (stores j)) (schedule : List ι) :
    (w.run stores schedule).Sound stores fs opened programs := by
  induction schedule generalizing w with
  | nil => exact sound
  | cons i rest ih => exact ih (sound.turn hapart i)

end Sound

/-- Who gets enough turns comes to the end. -/
lemma turnsLeft_run [BEq ι] [LawfulBEq ι] (stores : ι → FileStore) (w : FileWorld ι)
    (schedule : List ι) (i : ι) :
    ((w.run stores schedule).task i).turnsLeft (stores i) ≤
      (w.task i).turnsLeft (stores i) - schedule.count i := by
  induction schedule generalizing w with
  | nil => exact Nat.le_refl _
  | cons j rest ih =>
    refine (ih (w.turn stores j)).trans ?_
    by_cases hj : i = j
    · subst hj
      rw [task_turn_self, List.count_cons_self]
      have := StoreTask.turnsLeft_turn (stores i) w.files (w.task i)
      omega
    · rw [task_turn_of_ne hj, List.count_cons_of_ne (Ne.symm hj)]

end FileWorld

/-! ## The stores of a table -/

namespace Watermark

/-- The store in the file of a partition. -/
def store (directory : String) (owner : UInt32 × TableKind) : FileStore :=
  ⟨Path.ofText (path directory owner.1 owner.2)⟩

/-- A partition without a store of its own has this one, if the table has a directory. -/
lemma standard_store {s : Settings} {directory : String} (h : s.directory = some directory)
    (files : FileSystem) : (StoreChoice.standard files).store s =
      { medium := .file (store directory (s.partition, s.kind)) files } := by
  simp [StoreChoice.store, Settings.watermarkPath, h, store]

lemma exists_parent (directory : String) :
    ∃ parent, ∀ owner, (store directory owner).path.parent = parent := by
  obtain ⟨base, lead, hpath⟩ := exists_ofText_path directory
  refine ⟨Path.trimmed base, ?_⟩
  intro owner
  rw [store, hpath]
  exact Path.parent_concat base (isProper_append_name _ _ _ _).1

/-- The paths of all files of a directory part in their last names. -/
lemma exists_uses (directory : String) : ∃ base lead, ∀ owner fs place,
    (store directory owner).Uses fs place →
      ∃ temporary, fs.locate (base ++ [lead ++ name owner.1 owner.2 temporary]) = .ok place := by
  obtain ⟨base, lead, hpath⟩ := exists_ofText_path directory
  refine ⟨base, lead, ?_⟩
  intro owner fs place huses
  rcases huses with htarget | htemporary
  · rw [store, hpath] at htarget
    exact ⟨false, htarget⟩
  · rw [FileStore.temporary, store, hpath, Path.withEnding_concat, String.append_assoc,
      name_tmp] at htemporary
    exact ⟨true, htemporary⟩

/-- No two files of a directory stand at one place, whatever the file system. -/
lemma store_apart (directory : String) {owner other : UInt32 × TableKind} (h : owner ≠ other) :
    (store directory owner).Apart (store directory other) := by
  intro fs place huses hother
  obtain ⟨base, lead, hlocate⟩ := exists_uses directory
  obtain ⟨temporary, hplace⟩ := hlocate owner fs place huses
  obtain ⟨beside, hplace'⟩ := hlocate other fs place hother
  have hne : lead ++ name owner.1 owner.2 temporary ≠ lead ++ name other.1 other.2 beside := by
    intro hsame
    obtain ⟨hpartition, hkind, -⟩ := name_inj ((String.append_right_inj lead).1 hsame)
    exact h (Prod.ext hpartition hkind)
  exact FileSystem.locate_ne (isProper_append_name _ _ _ _) (isProper_append_name _ _ _ _) hne
    hplace hplace' rfl

/-- **The store in a file refines the store in memory.**  On a fresh path the store in a file
answers each sequence of calls as a new store in memory does: with the watermark that was
persisted last since the watermark was deleted last, bit for bit, or else with the default.
This remains so when the partitions of a table take turns at their stores, whatever the
schedule, even in the midst of persisting.  No two of their files stand at one place. -/
theorem file_stores_answer_as_memory :
    (∀ calls, ({} : MemoryStore).answers calls =
      calls.mapIdx fun i call => call.answerAfter (calls.take i)) ∧
    (∀ (s : FileStore) (fs : FileSystem), s.Fresh fs → ∀ calls,
      s.answers fs calls = (({} : MemoryStore).answers calls).map .ok) ∧
    (∀ (directory : String) (fs : FileSystem) (programs : UInt32 × TableKind → List StoreCall),
      (∀ owner, programs owner ≠ [] → (store directory owner).Fresh fs) →
      ∀ schedule owner,
        (((FileWorld.start fs programs).run (store directory) schedule).task owner).answers <+:
          (({} : MemoryStore).answers (programs owner)).map .ok ∧
        (StoreTask.turnsFor (store directory owner) (programs owner) ≤ schedule.count owner →
          (((FileWorld.start fs programs).run (store directory) schedule).task owner).answers =
            (({} : MemoryStore).answers (programs owner)).map .ok)) ∧
    ∀ (directory : String) (owner other : UInt32 × TableKind), owner ≠ other →
      (store directory owner).Apart (store directory other) := by
  refine ⟨MemoryStore.answers_eq, fun s fs fresh => fresh.answers_eq, ?_,
    fun directory owner other => store_apart directory⟩
  intro directory fs programs hfresh schedule owner
  obtain ⟨parent, hparent⟩ := exists_parent directory
  obtain ⟨opened, hbetween, hready⟩ := FileWorld.exists_ready hparent hfresh
  have hapart : ∀ owner other, owner ≠ other →
      (store directory owner).Apart (store directory other) :=
    fun _ _ h => store_apart directory h
  have hsound := (FileWorld.Sound.start hbetween hready).run hapart schedule
  obtain ⟨hsofar, hall⟩ := (hsound.tasks owner).answers
  refine ⟨hsofar, ?_⟩
  intro hturns
  refine hall ?_
  have hleft :=
    FileWorld.turnsLeft_run (store directory) (FileWorld.start fs programs) schedule owner
  have hstart : ((FileWorld.start fs programs).task owner).turnsLeft (store directory owner) =
      StoreTask.turnsFor (store directory owner) (programs owner) := by
    simp [FileWorld.start, StoreTask.turnsLeft]
  omega

end Watermark

namespace Sample

/-- A time that is not a number, with a payload. -/
def strange : Binary64 := ⟨0x7FF8000000000001⟩

/-- Two stores of one partition are called, and nobody else's. -/
def storeCalls (owner : UInt32 × TableKind) : List StoreCall :=
  if owner = (1, .upsert) then [.load .zero, .persist strange, .load .zero]
  else if owner = (1, .dedup) then [.delete, .persist .zero, .delete, .load strange]
  else []

/-- They take turns, each as often as it takes. -/
def storeTurns : List (UInt32 × TableKind) :=
  (List.replicate 15 [(1, .upsert), (1, .dedup)]).flatten

lemma fresh_store {owner : UInt32 × TableKind}
    (hworks : ((Watermark.store "d" owner).persist .empty .zero).1 = .ok ())
    (hmade : FileSystem.empty.makeDirectories (Watermark.store "d" owner).path.parent =
      .ok ⟨[(["d"], .directory)]⟩)
    (hread : FileSystem.read ⟨[(["d"], .directory)]⟩ (Watermark.store "d" owner).path =
      .error .notFound) : (Watermark.store "d" owner).Fresh .empty where
  works := ⟨.zero, hworks⟩
  vacant := by
    intro opened hopened
    obtain rfl := Except.ok.inj (hmade.symm.trans hopened)
    exact hread

lemma fresh_upsert : (Watermark.store "d" (1, .upsert)).Fresh .empty :=
  fresh_store (by decide +kernel) (by decide +kernel) (by decide +kernel)

lemma fresh_dedup : (Watermark.store "d" (1, .dedup)).Fresh .empty :=
  fresh_store (by decide +kernel) (by decide +kernel) (by decide +kernel)

lemma fresh_callers (owner : UInt32 × TableKind) (h : storeCalls owner ≠ []) :
    (Watermark.store "d" owner).Fresh .empty := by
  by_cases hupsert : owner = (1, .upsert)
  · rw [hupsert]
    exact fresh_upsert
  · by_cases hdedup : owner = (1, .dedup)
    · rw [hdedup]
      exact fresh_dedup
    · exact absurd (by rw [storeCalls, if_neg hupsert, if_neg hdedup]) h

end Sample

open Sample in
/-- Two stores of one partition take turns in an empty file system: the one has persisted what
is not a number, bit for bit, and the other has forgotten what it had persisted. -/
theorem file_stores_answer_as_memory_neighbours :
    (∀ owner, storeCalls owner ≠ [] → (Watermark.store "d" owner).Fresh .empty) ∧
    (Watermark.store "d" (1, .upsert)).answers .empty (storeCalls (1, .upsert)) =
      [.ok (.watermark .zero), .ok .done, .ok (.watermark strange)] ∧
    (((FileWorld.start .empty storeCalls).run (Watermark.store "d") storeTurns).task
        (1, .upsert)).answers =
      [.ok (.watermark .zero), .ok .done, .ok (.watermark strange)] ∧
    (((FileWorld.start .empty storeCalls).run (Watermark.store "d") storeTurns).task
        (1, .dedup)).answers =
      [.ok .done, .ok .done, .ok .done, .ok (.watermark strange)] ∧
    (Watermark.store "d" (1, .upsert)).Apart (Watermark.store "d" (1, .dedup)) := by
  obtain ⟨-, hone, htable, hapart⟩ := Watermark.file_stores_answer_as_memory
  have hturns := htable "d" .empty storeCalls fresh_callers storeTurns
  refine ⟨fresh_callers, hone _ _ fresh_upsert _, ?_, ?_, hapart "d" _ _ (by decide)⟩
  · exact (hturns (1, .upsert)).2 (by decide +kernel)
  · exact (hturns (1, .dedup)).2 (by decide +kernel)

end PartitionKeys

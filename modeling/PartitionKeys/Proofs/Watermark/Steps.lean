/-
# Persisting, step by step

A watermark is persisted in many steps, and others may take steps of their own in between.
First the directories on the way are made; then the temporary file is filled byte by byte;
with the last step it takes the place of the file.  Every step succeeds, whatever the others
have done, and only the last one changes what the store holds.
-/
import PartitionKeys.Proofs.Watermark.Places

namespace PartitionKeys

namespace FileStore

open FileSystem

variable {s : FileStore} {fs opened now after : FileSystem} {target temporary : Place}
  {value : Option Binary64} {time : Binary64} {own : List Place}

/-! ## Where a store has its files -/

/-- The path of the store's file, or of its temporary file, leads to a place. -/
def Uses (s : FileStore) (fs : FileSystem) (place : Place) : Prop :=
  fs.locate s.path = .ok place ∨ fs.locate s.temporary = .ok place

/-- No file of the one store ever stands where a file of the other one stands. -/
def Apart (s other : FileStore) : Prop := ∀ fs place, s.Uses fs place → ¬ other.Uses fs place

/-- Once the directories on the way have been made, the paths of the file and of its temporary
file lead to these places, and no directory stands there. -/
structure Stands (s : FileStore) (opened : FileSystem) (target temporary : Place) : Prop where
  target_at : opened.locate s.path = .ok target
  temporary_at : opened.locate s.temporary = .ok temporary
  target_free : opened.node? target ≠ some .directory
  temporary_free : opened.node? temporary ≠ some .directory

namespace Stands

lemma ne (stands : Stands s opened target temporary) : target ≠ temporary :=
  locate_withEnding_ne (by decide) stands.target_at stands.temporary_at

lemma uses_free (stands : Stands s opened target temporary) : ∀ place ∈ [target, temporary],
    s.Uses opened place ∧ opened.node? place ≠ some .directory := by
  intro place hplace
  rcases List.mem_pair.1 hplace with rfl | rfl
  · exact ⟨.inl stands.target_at, stands.target_free⟩
  · exact ⟨.inr stands.temporary_at, stands.temporary_free⟩

lemma own_free (stands : Stands s opened target temporary) :
    ∀ place ∈ [target, temporary], opened.node? place ≠ some .directory :=
  fun place hplace => (stands.uses_free place hplace).2

end Stands

/-! ## What a store holds -/

/-- The file is there with the bytes of the watermark, and the directories that lead to it; or
there is no file. -/
structure Holds (opened now : FileSystem) (target : Place) (value : Option Binary64) : Prop where
  node : now.node? target = value.map fun time => .file time.toBytes
  directories : value ≠ none → KeepsDirectories opened now

namespace Holds

lemma load (between : Between fs opened now) (stands : Stands s opened target temporary)
    (holds : Holds opened now target value) (default : Binary64) :
    s.load now default = .ok (value.getD default) := by
  unfold FileStore.load
  cases value with
  | none =>
    rw [(read_of_vacant (between.locate stands.target_at) holds.node).1]
    rfl
  | some time =>
    have hplace := (holds.directories (by simp)).locate stands.target_at
    rw [read_ok.2 ⟨target, hplace, holds.node⟩]
    dsimp only
    rw [Binary64.ofBytes?_toBytes]
    rfl

lemma delete (between : Between fs opened now) (stands : Stands s opened target temporary)
    (holds : Holds opened now target value) :
    ∃ after, s.delete now = (.ok (), after) ∧ Touches opened [target, temporary] now after ∧
      Holds opened after target none := by
  unfold FileStore.delete
  cases value with
  | none =>
    rw [(read_of_vacant (between.locate stands.target_at) holds.node).2]
    exact ⟨now, rfl, .refl opened _ now, holds⟩
  | some time =>
    have hplace := (holds.directories (by simp)).locate stands.target_at
    have hroot := ne_root_of_ne_directory stands.target_free
    rw [removeFile_of_locate hplace holds.node]
    refine ⟨now.erase target, rfl, .erase (by simp) hroot, ?_, by simp⟩
    exact node?_erase_self now hroot

/-- What others do elsewhere changes nothing. -/
lemma frame (holds : Holds opened now target value) (h : Touches opened own now after)
    (keeps : KeepsDirectories now after) (hown : target ∉ own)
    (hfree : opened.node? target ≠ some .directory) : Holds opened after target value where
  node := by rw [h.elsewhere hown hfree, holds.node]
  directories := fun hvalue => (holds.directories hvalue).trans keeps

end Holds

/-! ## A watermark on its way -/

/-- What is still to be done while a watermark is persisted. -/
inductive Stage (s : FileStore) (opened now : FileSystem) (temporary : Place) (time : Binary64) :
    List Step → Prop
  /-- Some directories have been made, so that the others can be. -/
  | making {prior : FileSystem} {names : List Nat} (keeps : KeepsDirectories prior now)
      (makes : s.runSteps (names.map .makeDirectory) prior = (.ok (), opened)) :
      Stage s opened now temporary time
        (names.map .makeDirectory ++ .createTemporary :: time.toBytes.map .append ++ [.rename])
  /-- The temporary file has the first bytes. -/
  | filling {content rest : Bytes} (keeps : KeepsDirectories opened now)
      (written : now.node? temporary = some (.file content))
      (spells : content ++ rest = time.toBytes) :
      Stage s opened now temporary time (rest.map .append ++ [.rename])

namespace Stage

variable {steps rest : List Step} {step : Step}

lemma ne_nil (stage : Stage s opened now temporary time steps) : steps ≠ [] := by
  cases stage with
  | making keeps makes => simp
  | filling keeps written spells => simp

lemma frame (stage : Stage s opened now temporary time steps) (h : Touches opened own now after)
    (keeps : KeepsDirectories now after) (hown : temporary ∉ own)
    (hfree : opened.node? temporary ≠ some .directory) :
    Stage s opened after temporary time steps := by
  cases stage with
  | making held makes => exact .making (held.trans keeps) makes
  | filling held written spells =>
    refine .filling (held.trans keeps) ?_ spells
    rw [h.elsewhere hown hfree, written]

end Stage

/-! ## Making the directories -/

lemma run_makeDirectory_ok {n : Nat} : (Step.makeDirectory n).run s fs = .ok after ↔
    s.path.parent.isUsable = true ∧ fs.makeDirectory (s.path.parent.take n) = .ok after := by
  change (if s.path.parent.isUsable then
    (fs.makeDirectory (s.path.parent.take n)).mapError fun _ => StoreError.io .createDirectory
    else .error (.io .createDirectory)) = .ok after ↔ _
  cases s.path.parent.isUsable with
  | false => simp
  | true =>
    cases hmade : fs.makeDirectory (s.path.parent.take n) <;> simp [Except.mapError]

lemma makes_of_runSteps {names : List Nat}
    (h : s.runSteps (names.map .makeDirectory) fs = (.ok (), after)) : Makes fs after := by
  induction names generalizing fs with
  | nil =>
    cases h
    exact fun _ => .inl rfl
  | cons n names ih =>
    obtain ⟨between, hstep, h⟩ := runSteps_cons_ok h
    exact (makes_of_makeDirectory (run_makeDirectory_ok.1 hstep).2).trans (ih h)

/-- A directory that the store could make without the others, it can make with them. -/
lemma run_makeDirectory {prior made : FileSystem} {n : Nat} (between : Between fs opened now)
    (own : List Place) (keeps : KeepsDirectories prior now)
    (h : (Step.makeDirectory n).run s prior = .ok made) (hopened : KeepsDirectories made opened) :
    ∃ after, (Step.makeDirectory n).run s now = .ok after ∧ Touches opened own now after ∧
      KeepsDirectories made after := by
  obtain ⟨husable, hmade⟩ := run_makeDirectory_ok.1 h
  obtain ⟨after, hafter, htouches, hkeeps⟩ := between.makeDirectory own keeps hmade hopened
  exact ⟨after, run_makeDirectory_ok.2 ⟨husable, hafter⟩, htouches, hkeeps⟩

/-! ## Writing the file -/

lemma run_createTemporary (hlocate : now.locate s.temporary = .ok temporary)
    (hfree : now.node? temporary ≠ some .directory) :
    Step.createTemporary.run s now = .ok (now.set temporary (.file [])) := by
  change (now.writeFile s.temporary []).mapError _ = _
  rw [writeFile_of_locate hlocate hfree]
  rfl

lemma run_append {content : Bytes} (hlocate : now.locate s.temporary = .ok temporary)
    (hnode : now.node? temporary = some (.file content)) (byte : UInt8) :
    (Step.append byte).run s now = .ok (now.set temporary (.file (content ++ [byte]))) := by
  change (now.append s.temporary byte).mapError _ = _
  rw [append_of_locate hlocate hnode]
  rfl

lemma run_rename {content : Bytes} (hlocate : now.locate s.temporary = .ok temporary)
    (hnode : now.node? temporary = some (.file content))
    (hgoal : now.locate s.path = .ok target) (hfree : now.node? target ≠ some .directory) :
    Step.rename.run s now = .ok ((now.erase temporary).set target (.file content)) := by
  change (now.rename s.temporary s.path).mapError _ = _
  rw [rename_of_locate hlocate hnode hgoal hfree]
  rfl

/-! ## Every step succeeds -/

section

variable (between : Between fs opened now) (stands : Stands s opened target temporary)
include between stands

lemma temporary_free_now : now.node? temporary ≠ some .directory :=
  fun hnow => stands.temporary_free (between.known temporary hnow)

lemma target_free_now : now.node? target ≠ some .directory :=
  fun hnow => stands.target_free (between.known target hnow)

/-- What touches the temporary file only keeps all directories. -/
lemma keeps_of_touches (h : Touches opened [temporary] now after) : KeepsDirectories now after := by
  refine (between.touches h ?_).2
  intro place hplace
  rw [List.mem_singleton.1 hplace]
  exact stands.temporary_free

/-- What touches the temporary file only leaves what the store holds. -/
lemma holds_of_touches (holds : Holds opened now target value)
    (h : Touches opened [temporary] now after) : Holds opened after target value :=
  holds.frame h (keeps_of_touches between stands h) (by simpa using stands.ne) stands.target_free

/-- A temporary file is made, or made anew. -/
lemma createTemporary_filling (time : Binary64) (keeps : KeepsDirectories opened now) :
    ∃ after, Step.createTemporary.run s now = .ok after ∧ Touches opened [temporary] now after ∧
      Stage s opened after temporary time (time.toBytes.map .append ++ [.rename]) := by
  have hfree := temporary_free_now between stands
  have hroot := ne_root_of_ne_directory hfree
  have htouches : Touches opened [temporary] now (now.set temporary (.file [])) :=
    .set_file (by simp) hroot []
  refine ⟨_, run_createTemporary (keeps.locate stands.temporary_at) hfree, htouches, ?_⟩
  exact .filling (keeps.trans (keeps_of_touches between stands htouches))
    (node?_set_self now hroot _) rfl

lemma append_filling {content rest : Bytes} {byte : UInt8} (keeps : KeepsDirectories opened now)
    (written : now.node? temporary = some (.file content))
    (spells : content ++ byte :: rest = time.toBytes) :
    ∃ after, (Step.append byte).run s now = .ok after ∧ Touches opened [temporary] now after ∧
      Stage s opened after temporary time (rest.map .append ++ [.rename]) := by
  have hroot := ne_root_of_ne_directory (temporary_free_now between stands)
  have htouches : Touches opened [temporary] now
      (now.set temporary (.file (content ++ [byte]))) := .set_file (by simp) hroot _
  refine ⟨_, run_append (keeps.locate stands.temporary_at) written byte, htouches, ?_⟩
  refine .filling (keeps.trans (keeps_of_touches between stands htouches))
    (node?_set_self now hroot _) ?_
  rw [← spells, List.append_assoc]
  rfl

/-- The temporary file takes the place of the file, with all of its bytes. -/
lemma rename_holds (keeps : KeepsDirectories opened now)
    (written : now.node? temporary = some (.file time.toBytes)) :
    ∃ after, Step.rename.run s now = .ok after ∧ Touches opened [target, temporary] now after ∧
      Holds opened after target (some time) := by
  have hfree := target_free_now between stands
  have hroot := ne_root_of_ne_directory hfree
  have htemporary := ne_root_of_ne_directory (temporary_free_now between stands)
  have htouches : Touches opened [target, temporary] now
      ((now.erase temporary).set target (.file time.toBytes)) :=
    .trans (.erase (by simp) htemporary) (.set_file (by simp) hroot _)
  refine ⟨_, run_rename (keeps.locate stands.temporary_at) written (keeps.locate stands.target_at)
    hfree, htouches, node?_set_self _ hroot _, ?_⟩
  exact fun _ => keeps.trans (between.touches htouches stands.own_free).2

/-- **Every step of persisting succeeds.**  The last one changes what the store holds, and the
others do not. -/
lemma Stage.step {step : Step} {rest : List Step} (holds : Holds opened now target value)
    (stage : Stage s opened now temporary time (step :: rest)) :
    ∃ after, step.run s now = .ok after ∧ Touches opened [target, temporary] now after ∧
      ((rest = [] ∧ Holds opened after target (some time)) ∨
        (Stage s opened after temporary time rest ∧ Holds opened after target value)) := by
  generalize hsteps : step :: rest = steps at stage
  suffices hbefore : (∃ after, step.run s now = .ok after ∧ Touches opened [temporary] now after ∧
      Stage s opened after temporary time rest) ∨ (rest = [] ∧ ∃ after, step.run s now = .ok after ∧
        Touches opened [target, temporary] now after ∧ Holds opened after target (some time)) by
    obtain ⟨after, hrun, htouches, hstage⟩ | ⟨hrest, after, hrun, htouches, hholds⟩ := hbefore
    · exact ⟨after, hrun, htouches.mono (by simp),
        .inr ⟨hstage, holds_of_touches between stands holds htouches⟩⟩
    · exact ⟨after, hrun, htouches, .inl ⟨hrest, hholds⟩⟩
  cases stage with
  | @making prior names keeps makes =>
    left
    cases names with
    | nil =>
      obtain ⟨rfl, rfl⟩ := List.cons.inj hsteps
      cases makes
      exact createTemporary_filling between stands time keeps
    | cons n names =>
      obtain ⟨rfl, rfl⟩ := List.cons.inj hsteps
      obtain ⟨made, hstep, makes⟩ := runSteps_cons_ok makes
      obtain ⟨after, hrun, htouches, hkeeps⟩ := run_makeDirectory between [temporary] keeps hstep
        (makes_of_runSteps makes).between.known
      exact ⟨after, hrun, htouches, .making hkeeps makes⟩
  | @filling content bytes keeps written spells =>
    cases bytes with
    | nil =>
      right
      obtain ⟨rfl, rfl⟩ := List.cons.inj hsteps
      rw [List.append_nil] at spells
      exact ⟨rfl, rename_holds between stands keeps (spells ▸ written)⟩
    | cons byte bytes =>
      left
      obtain ⟨rfl, rfl⟩ := List.cons.inj hsteps
      exact append_filling between stands keeps written spells

/-- Without the steps of others, the steps are done one after the other. -/
lemma Stage.run {steps : List Step} (holds : Holds opened now target value)
    (stage : Stage s opened now temporary time steps) :
    ∃ after, s.runSteps steps now = (.ok (), after) ∧
      Touches opened [target, temporary] now after ∧ Holds opened after target (some time) := by
  induction steps generalizing now with
  | nil => exact absurd rfl stage.ne_nil
  | cons step rest ih =>
    obtain ⟨next, hrun, htouches, hnext⟩ := stage.step between stands holds
    have hsteps : s.runSteps (step :: rest) now = s.runSteps rest next := by
      rw [runSteps, hrun]
    rw [hsteps]
    rcases hnext with ⟨rfl, hholds⟩ | ⟨hstage, hholds⟩
    · exact ⟨next, rfl, htouches, hholds⟩
    · obtain ⟨after, hrest, hlater, hdone⟩ :=
        ih (between.touches htouches stands.own_free).1 hholds hstage
      exact ⟨after, hrest, htouches.trans hlater, hdone⟩

end

/-! ## A fresh path -/

/-- The path is fresh, and the file system does what it is asked for: a watermark could be
persisted there, and once the directories on the way have been made there is no file. -/
structure Fresh (s : FileStore) (fs : FileSystem) : Prop where
  works : ∃ time, (s.persist fs time).1 = .ok ()
  vacant : ∀ opened, fs.makeDirectories s.path.parent = .ok opened →
    opened.read s.path = .error .notFound

/-- How many names lead to each of the directories on the way. -/
def ways (s : FileStore) : List Nat := (List.range s.path.parent.length).map (· + 1)

lemma persistSteps_eq (s : FileStore) (time : Binary64) :
    s.persistSteps time = s.ways.map .makeDirectory
      ++ .createTemporary :: time.toBytes.map .append ++ [.rename] := by
  rw [ways, List.map_map]
  rfl

/-- The store makes its directories, and then has the places for its files. -/
structure Ready (s : FileStore) (fs opened : FileSystem) (target temporary : Place) : Prop where
  opens : s.runSteps (s.ways.map .makeDirectory) fs = (.ok (), opened)
  stands : Stands s opened target temporary
  vacant : opened.node? target = none

lemma foldlM_of_runSteps {names : List Nat}
    (h : s.runSteps (names.map .makeDirectory) fs = (.ok (), opened)) :
    names.foldlM (fun fs n => fs.makeDirectory (s.path.parent.take n)) fs = .ok opened := by
  induction names generalizing fs with
  | nil =>
    cases h
    rfl
  | cons n names ih =>
    obtain ⟨made, hstep, h⟩ := runSteps_cons_ok h
    rw [List.foldlM_cons, (run_makeDirectory_ok.1 hstep).2]
    exact ih h

lemma makeDirectories_of_runSteps
    (h : s.runSteps (s.ways.map .makeDirectory) fs = (.ok (), opened)) :
    fs.makeDirectories s.path.parent = .ok opened := by
  have hfold := foldlM_of_runSteps h
  rwa [ways, List.foldlM_map] at hfold

/-- Writing bytes makes no directory. -/
lemma keepsDirectories_of_append {bytes : Bytes}
    (h : s.runSteps (bytes.map .append) fs = (.ok (), after)) : KeepsDirectories after fs := by
  induction bytes generalizing fs with
  | nil =>
    cases h
    exact fun _ hdirectory => hdirectory
  | cons byte rest ih =>
    obtain ⟨next, hstep, h⟩ := runSteps_cons_ok h
    obtain ⟨place, content, -, -, rfl⟩ := append_ok (mapError_ok hstep)
    exact (ih h).trans (keepsDirectories_of_set_file fs _ _)

lemma Fresh.ready (fresh : s.Fresh fs) : ∃ opened target temporary,
    fs.makeDirectories s.path.parent = .ok opened ∧ s.Ready fs opened target temporary := by
  obtain ⟨time, hworks⟩ := fresh.works
  obtain ⟨after, hpersist⟩ : ∃ after, s.persist fs time = (.ok (), after) :=
    ⟨(s.persist fs time).2, by rw [← hworks]⟩
  rw [persist, persistSteps_eq] at hpersist
  obtain ⟨filled, h, hrename⟩ := runSteps_append_ok hpersist
  obtain ⟨opened, hopens, h⟩ := runSteps_append_ok h
  obtain ⟨created, hcreate, happend⟩ := runSteps_cons_ok h
  obtain ⟨renamed, hrename, -⟩ := runSteps_cons_ok hrename
  obtain ⟨temporary, htemporary, hfree, rfl⟩ := writeFile_ok (mapError_ok hcreate)
  obtain ⟨-, target, -, -, -, htarget, -⟩ := rename_ok (mapError_ok hrename)
  -- the temporary file does not change where the paths lead
  have hkeeps := (keepsDirectories_of_append happend).trans
    (keepsDirectories_of_set_file opened _ _)
  have htarget := hkeeps.locate htarget
  have hopened := makeDirectories_of_runSteps hopens
  have hvacant : opened.node? target = none := by
    have hread := fresh.vacant opened hopened
    rw [FileSystem.read, htarget] at hread
    exact contentAt_notFound hread
  exact ⟨opened, target, temporary, hopened, hopens,
    ⟨htarget, htemporary, by simp [hvacant], hfree⟩, hvacant⟩

namespace Ready

lemma makes (ready : s.Ready fs opened target temporary) : Makes fs opened :=
  makes_of_runSteps ready.opens

/-- At the beginning the store holds nothing. -/
lemma holds (ready : s.Ready fs opened target temporary) : Holds opened fs target none where
  node := ready.makes.node?_eq_none ready.vacant
  directories := by simp

/-- At any time a watermark can be persisted. -/
lemma stage (ready : s.Ready fs opened target temporary) (between : Between fs opened now)
    (time : Binary64) : Stage s opened now temporary time (s.persistSteps time) := by
  rw [persistSteps_eq]
  exact .making between.kept ready.opens

end Ready

end FileStore

end PartitionKeys

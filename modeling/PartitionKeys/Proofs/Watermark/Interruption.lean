/-
# Persisting is cut short

The steps of persisting before the last one make directories above the file, where nothing was,
and write the temporary file beside it.  None of this lies where the path of the file leads.  So
whoever stops before the last step, or fails at any one, leaves what the store answers; the one
exception is a path with a name that no file can have, which is found out only once the
directories in front of that name are there.  A temporary file that is left behind is made anew
by the next one who persists.
-/
import PartitionKeys.Proofs.Watermark.Steps
import PartitionKeys.Proofs.Watermark.Trees

namespace PartitionKeys

namespace FileStore

open FileSystem

variable {s : FileStore} {fs now after : FileSystem} {start place : Place} {rest : Path}
  {steps later : List Step} {time : Binary64}

/-! ## Where the temporary file is put -/

/-- Where the path of the file passes, the temporary file does not stand. -/
lemma ne_temporary_goal (h : start <+: s.path.goal) : start ≠ s.temporary.goal := by
  rintro rfl
  rcases List.eq_nil_or_concat' s.path with hempty | ⟨base, name, hpath⟩
  · rw [hempty, temporary, hempty] at h
    exact absurd h (by decide)
  · have hlonger := Path.goal_singleton (Path.isProper_append name ".tmp" (by decide)).1
    rw [temporary, hpath, Path.withEnding_concat, Path.goal_append, Path.goal_append, hlonger,
      List.prefix_append_right_inj] at h
    cases hstays : Path.stays name with
    | true =>
      rw [Path.goal_singleton_of_stays hstays] at h
      exact absurd h.length_le (by simp)
    | false =>
      rw [Path.goal_singleton hstays] at h
      have hname := congrArg String.length (List.singleton_inj.1 (h.eq_of_length rfl))
      simp at hname

lemma notMem_temporary (h : ".." ∉ s.path) : ".." ∉ s.temporary := by
  intro hmem
  rcases List.mem_append.1 hmem with hbase | hname
  · exact h (List.dropLast_subset _ hbase)
  · exact (Path.isProper_append _ ".tmp" (by decide)).2 (List.mem_singleton.1 hname).symm

lemma notMem_parent (h : ".." ∉ s.path) : ".." ∉ s.path.parent :=
  fun hmem => h (List.dropLast_subset _ ((Path.parent_isPrefix _).subset hmem))

/-! ## What the steps change -/

/-- Away from the temporary file nothing changes, but above the file directories are made where
nothing was. -/
def Spares (s : FileStore) (now after : FileSystem) : Prop :=
  ∀ place, place ≠ s.temporary.goal → after.node? place = now.node? place ∨
    (now.node? place = none ∧ after.node? place = some .directory ∧
      place.length < s.path.goal.length)

namespace Spares

lemma refl (s : FileStore) (fs : FileSystem) : s.Spares fs fs := fun _ _ => .inl rfl

lemma trans (h : s.Spares fs now) (hlater : s.Spares now after) : s.Spares fs after := by
  intro place hplace
  rcases hlater place hplace with hsame | ⟨hnone, hmade⟩
  · rw [hsame]
    exact h place hplace
  · rcases h place hplace with hsame | ⟨-, hdirectory, -⟩
    · exact .inr ⟨hsame ▸ hnone, hmade⟩
    · rw [hnone] at hdirectory
      cases hdirectory

/-- Whatever is put at the place of the temporary file. -/
lemma set_temporary (s : FileStore) (fs : FileSystem) (node : Node) :
    s.Spares fs (fs.set s.temporary.goal node) :=
  fun _ hplace => .inl (node?_set_of_ne hplace fs node)

lemma makeDirectory {n : Nat} (hback : ".." ∉ s.path)
    (h : now.makeDirectory (s.path.parent.take n) = .ok after) : s.Spares now after := by
  obtain ⟨made, hlocate, ⟨rfl, -⟩ | ⟨rfl, hnone⟩⟩ := makeDirectory_ok h
  · exact refl s after
  have htake : ".." ∉ s.path.parent.take n :=
    fun hmem => notMem_parent hback (List.mem_of_mem_take hmem)
  obtain rfl := locate_goal htake hlocate
  have hroot := ne_root_of_eq_none hnone
  have hparent : s.path.parent ≠ [] := by
    intro hparent
    rw [hparent, List.take_nil] at hroot
    exact hroot rfl
  -- the directory is above the file
  have hshort : (Path.goal (s.path.parent.take n)).length < s.path.goal.length := by
    obtain ⟨name, hgoal⟩ := Path.goal_eq_parent_append hparent
    have hle := ((List.take_sublist n s.path.parent).filter fun name => !Path.stays name).length_le
    rw [hgoal, List.length_append]
    exact Nat.lt_succ_of_le hle
  intro other _
  by_cases hother : other = Path.goal (s.path.parent.take n)
  · subst hother
    exact .inr ⟨hnone, node?_set_self now hroot _, hshort⟩
  · exact .inl (node?_set_of_ne hother now _)

/-- The step: all but the last one spare the file. -/
lemma step {step : Step} (hback : ".." ∉ s.path) (hstep : step ≠ .rename)
    (h : step.run s now = .ok after) : s.Spares now after := by
  cases step with
  | makeDirectory n => exact makeDirectory hback (run_makeDirectory_ok.1 h).2
  | createTemporary =>
    obtain ⟨written, hlocate, -, rfl⟩ := writeFile_ok (mapError_ok h)
    rw [locate_goal (notMem_temporary hback) hlocate]
    exact set_temporary s now _
  | append byte =>
    obtain ⟨written, content, hlocate, -, rfl⟩ := append_ok (mapError_ok h)
    rw [locate_goal (notMem_temporary hback) hlocate]
    exact set_temporary s now _
  | rename => exact absurd rfl hstep

end Spares

/-- What each step keeps is kept to wherever the steps come. -/
lemma runSteps_preserves {P : FileSystem → Prop}
    (hstep : ∀ step ∈ steps, ∀ now after, P now → step.run s now = .ok after → P after)
    (h : P fs) : P (s.runSteps steps fs).2 := by
  induction steps generalizing fs with
  | nil => exact h
  | cons step rest ih =>
    rw [runSteps]
    cases hrun : step.run s fs with
    | error e => exact h
    | ok next =>
      refine ih ?_ (hstep step (List.mem_cons_self ..) fs next h hrun)
      exact fun later hlater => hstep later (List.mem_cons_of_mem _ hlater)

/-- The run: as long as the last step is not done. -/
lemma spares_runSteps (hback : ".." ∉ s.path) (hsteps : .rename ∉ steps) (fs : FileSystem) :
    s.Spares fs (s.runSteps steps fs).2 := by
  refine runSteps_preserves ?_ (.refl s fs)
  intro step hmem now after hspares hrun
  exact hspares.trans (.step hback (ne_of_mem_of_not_mem hmem hsteps) hrun)

/-- Whatever steps a store takes, the file system is a tree. -/
lemma isTree_runSteps (tree : fs.IsTree) (steps : List Step) : (s.runSteps steps fs).2.IsTree := by
  refine runSteps_preserves ?_ tree
  intro step _ now after hnow hrun
  cases step with
  | makeDirectory n => exact hnow.makeDirectory (run_makeDirectory_ok.1 hrun).2
  | createTemporary => exact hnow.writeFile (mapError_ok hrun)
  | append byte => exact hnow.append (mapError_ok hrun)
  | rename => exact hnow.rename (mapError_ok hrun)

/-! ## What is read -/

/-- A path has a name that is longer than the names of files can be. -/
def Overlong (path : Path) : Prop := ∃ name ∈ path, Path.nameLimit < name.utf8ByteSize

lemma Overlong.cons (h : Overlong rest) (name : String) : Overlong (name :: rest) := by
  obtain ⟨long, hmem, hlong⟩ := h
  exact ⟨long, List.mem_cons_of_mem name hmem, hlong⟩

/-- Below a place where nothing was, the path of the file leads to where nothing was either,
unless it cannot be followed. -/
lemma Spares.follow_of_none (spares : s.Spares fs now) (tree : fs.IsTree) (hback : ".." ∉ rest)
    (hgoal : start ++ rest.goal = s.path.goal) (hnone : fs.node? start = none) :
    now.follow start rest = .ok s.path.goal ∨ now.follow start rest = .error .notFound ∨
      (now.follow start rest = .error .unusable ∧ Overlong rest) := by
  induction rest generalizing start with
  | nil =>
    rw [← hgoal]
    exact .inl (congrArg Except.ok (List.append_nil start).symm)
  | cons name rest ih =>
    rw [List.mem_cons, not_or] at hback
    rcases spares start (ne_temporary_goal ⟨_, hgoal⟩) with hsame | ⟨-, hmade, -⟩
    · rw [follow_cons, enter, hsame, hnone]
      exact .inr (.inl rfl)
    rw [Path.goal_cons, ← List.append_assoc] at hgoal
    rcases enter_of_directory (Ne.symm hback.1) hmade with henter | ⟨henter, hlong⟩
    · have hbelow := tree.node?_eq_none hnone (List.prefix_append start (Path.goal [name]))
      rw [follow_cons, henter]
      rcases ih hback.2 hgoal hbelow with hok | hlost | ⟨hlost, hlong⟩
      · exact .inl hok
      · exact .inr (.inl hlost)
      · exact .inr (.inr ⟨hlost, hlong.cons name⟩)
    · rw [follow_cons, henter]
      exact .inr (.inr ⟨rfl, name, List.mem_cons_self .., hlong⟩)

/-- The path of the file leads to where it led.  If it led to nothing on the way, it may lead on
since. -/
lemma Spares.follow (spares : s.Spares fs now) (tree : fs.IsTree) (hback : ".." ∉ rest)
    (hgoal : start ++ rest.goal = s.path.goal) :
    now.follow start rest = fs.follow start rest ∨
      (fs.follow start rest = .error .notFound ∧ fs.node? s.path.goal = none ∧
        (now.follow start rest = .ok s.path.goal ∨
          (now.follow start rest = .error .unusable ∧ Overlong rest))) := by
  induction rest generalizing start with
  | nil => exact .inl rfl
  | cons name rest ih =>
    rcases spares start (ne_temporary_goal ⟨_, hgoal⟩) with hsame | ⟨hnone, -, -⟩
    · rw [List.mem_cons, not_or] at hback
      rw [follow_cons, follow_cons, enter_congr hsame]
      cases henter : fs.enter start name with
      | error e => exact .inl rfl
      | ok next =>
        rw [Path.goal_cons, ← List.append_assoc] at hgoal
        obtain rfl := enter_goal (Ne.symm hback.1) henter
        rcases ih hback.2 hgoal with hsame | ⟨hlost, hvacant, hok | ⟨hlost', hlong⟩⟩
        · exact .inl hsame
        · exact .inr ⟨hlost, hvacant, .inl hok⟩
        · exact .inr ⟨hlost, hvacant, .inr ⟨hlost', hlong.cons name⟩⟩
    · have hlost : fs.follow start (name :: rest) = .error .notFound := by
        rw [follow_cons, enter, hnone]
        rfl
      have hvacant := tree.node?_eq_none hnone ⟨_, hgoal⟩
      rcases spares.follow_of_none tree hback hgoal hnone with hok | hlost' | hlong
      · exact .inr ⟨hlost, hvacant, .inl hok⟩
      · exact .inl (hlost'.trans hlost.symm)
      · exact .inr ⟨hlost, hvacant, .inr hlong⟩

/-- What is read stays, too. -/
lemma Spares.read (spares : s.Spares fs now) (tree : fs.IsTree) (hback : ".." ∉ s.path) :
    now.read s.path = fs.read s.path ∨
      (fs.read s.path = .error .notFound ∧ now.read s.path = .error .unusable ∧
        Overlong s.path) := by
  have hcontent : now.contentAt s.path.goal = fs.contentAt s.path.goal := by
    rcases spares s.path.goal (ne_temporary_goal List.prefix_rfl) with hsame | ⟨-, -, hshort⟩
    · rw [contentAt, hsame, contentAt]
    · exact absurd hshort (lt_irrefl _)
  unfold FileSystem.read FileSystem.locate
  cases s.path.isUsable with
  | false => exact .inl rfl
  | true =>
    simp only [if_true]
    rcases spares.follow tree hback (List.nil_append _) with
      hsame | ⟨hlost, hvacant, hok | ⟨hlost', hlong⟩⟩
    · left
      rw [hsame]
      cases hfollow : fs.follow [] s.path with
      | error e => rfl
      | ok place =>
        obtain rfl : place = s.path.goal := follow_goal hback hfollow
        exact hcontent
    · left
      rw [hlost, hok]
      exact hcontent.trans (contentAt_of_none hvacant)
    · right
      rw [hlost, hlost']
      exact ⟨rfl, rfl, hlong⟩

/-- The store answers as before; or there was no file, and now it is found that there cannot be
one. -/
def AnswersAsBefore (s : FileStore) (fs now : FileSystem) : Prop :=
  (∀ default, s.load now default = s.load fs default) ∨
    (Overlong s.path ∧ ∀ default,
      s.load fs default = .ok default ∧ s.load now default = .error (.io .read))

lemma Spares.answersAsBefore (spares : s.Spares fs now) (tree : fs.IsTree)
    (hback : ".." ∉ s.path) : s.AnswersAsBefore fs now := by
  unfold AnswersAsBefore FileStore.load
  rcases spares.read tree hback with hsame | ⟨hlost, hlost', hlong⟩
  · exact .inl fun default => by rw [hsame]
  · refine .inr ⟨hlong, ?_⟩
    intro default
    rw [hlost, hlost']
    exact ⟨rfl, rfl⟩

/-! ## Stopping before the last step -/

/-- The file is replaced with the last step, and with no other. -/
lemma rename_notMem (h : s.persistSteps time = steps ++ later) (hlater : later ≠ []) :
    .rename ∉ steps := by
  have hbegins : steps <+: s.persistSteps time := ⟨later, h.symm⟩
  rw [persistSteps_eq] at hbegins
  rcases List.prefix_concat_iff.1 hbegins with hall | hbegins
  · rw [← persistSteps_eq, h] at hall
    exact absurd (List.self_eq_append_right.1 hall) hlater
  · intro hmem
    have := hbegins.subset hmem
    simp at this

/-- Steps that fail stop in front of one of them. -/
lemma exists_stop {e : StoreError} (h : s.runSteps steps fs = (.error e, after)) :
    ∃ first later, steps = first ++ later ∧ later ≠ [] ∧ (s.runSteps first fs).2 = after := by
  induction steps generalizing fs with
  | nil => cases h
  | cons step steps ih =>
    rw [runSteps] at h
    cases hrun : step.run s fs with
    | error e =>
      rw [hrun] at h
      cases h
      exact ⟨[], _, rfl, List.cons_ne_nil _ _, rfl⟩
    | ok next =>
      rw [hrun] at h
      obtain ⟨first, later, rfl, hlater, hfirst⟩ := ih h
      refine ⟨step :: first, later, rfl, hlater, ?_⟩
      rw [runSteps, hrun]
      exact hfirst

/-- Whoever stops before the last step leaves what the store answers. -/
lemma answersAsBefore_of_split (tree : fs.IsTree) (hback : ".." ∉ s.path)
    (h : s.persistSteps time = steps ++ later) (hlater : later ≠ []) :
    s.AnswersAsBefore fs (s.runSteps steps fs).2 :=
  (spares_runSteps hback (rename_notMem h hlater) fs).answersAsBefore tree hback

/-! ## A temporary file that was left behind -/

section

variable (hlocate : fs.locate s.temporary = .ok place)
include hlocate

/-- Where the temporary file can be put, the directories are there. -/
lemma exists_directory_of_isPrefix {first : Path} (h : first <+: s.path.parent) :
    ∃ directory, fs.locate first = .ok directory ∧ fs.node? directory = some .directory := by
  obtain ⟨rest, hbase⟩ := h.trans (Path.parent_isPrefix _)
  rw [temporary, Path.withEnding, ← hbase, List.append_assoc] at hlocate
  cases rest with
  | nil => exact exists_directory hlocate
  | cons name rest => exact exists_directory hlocate

lemma runSteps_makeDirectory (names : List Nat) :
    s.runSteps (names.map .makeDirectory) fs = (.ok (), fs) := by
  induction names with
  | nil => rfl
  | cons n names ih =>
    obtain ⟨parent, hparent, -⟩ := exists_directory_of_isPrefix hlocate List.prefix_rfl
    obtain ⟨directory, htake, hdirectory⟩ :=
      exists_directory_of_isPrefix hlocate (List.take_prefix n _)
    have hrun := run_makeDirectory_ok.2
      ⟨(locate_ok.1 hparent).1, makeDirectory_of_directory htake hdirectory⟩
    rw [List.map_cons, runSteps, hrun]
    exact ih

/-- On the way to the file there are directories only, which stay. -/
lemma locate_of_keeps (keeps : KeepsDirectories fs now) : now.locate s.path = fs.locate s.path := by
  rcases List.eq_nil_or_concat' s.path with hpath | ⟨base, name, hpath⟩
  · rw [hpath]
    rfl
  · rw [temporary, hpath, Path.withEnding_concat] at hlocate
    obtain ⟨directory, hbase, henter⟩ := locate_concat_ok hlocate
    have hdirectory := node?_of_enter henter
    rw [hpath, FileSystem.locate, FileSystem.locate, follow_append, follow_append, hbase,
      keeps.follow hbase]
    change (if _ then now.follow directory [name] else _) =
      if _ then fs.follow directory [name] else _
    rw [follow_cons, follow_cons, enter_congr ((keeps directory hdirectory).trans hdirectory.symm)]
    rfl

variable (hfree : fs.node? place ≠ some .directory)
include hfree

/-- A temporary file is not read. -/
lemma load_set (content : Bytes) (default : Binary64) :
    s.load (fs.set place (.file content)) default = s.load fs default := by
  have hread : (fs.set place (.file content)).read s.path = fs.read s.path := by
    rw [FileSystem.read, locate_of_keeps hlocate (keepsDirectories_set hfree _), FileSystem.read]
    cases htarget : fs.locate s.path with
    | error e => rfl
    | ok target =>
      have hne := locate_withEnding_ne (by decide) htarget hlocate
      change FileSystem.contentAt _ target = FileSystem.contentAt _ target
      rw [contentAt, node?_set_of_ne hne, contentAt]
  rw [FileStore.load, hread, FileStore.load]

/-- Whoever persists makes the temporary file anew. -/
lemma persist_of_locate (time : Binary64) : s.persist fs time =
    s.runSteps (time.toBytes.map .append ++ [.rename]) (fs.set place (.file [])) := by
  have hcreate := run_createTemporary hlocate hfree
  rw [persist, persistSteps_eq, List.append_assoc, runSteps_append,
    runSteps_makeDirectory hlocate]
  dsimp only [List.cons_append, runSteps]
  rw [hcreate]

lemma persist_set (content : Bytes) (time : Binary64) :
    s.persist (fs.set place (.file content)) time = s.persist fs time := by
  have hfile : (fs.set place (.file content)).node? place = some (.file content) :=
    node?_set_self fs (ne_root_of_ne_directory hfree) _
  have hsame := (keepsDirectories_set hfree (.file content)).locate hlocate
  have hanew : (fs.set place (.file content)).set place (.file []) = fs.set place (.file []) :=
    congrArg FileSystem.mk (fs.nodes.put_put place _ _)
  rw [persist_of_locate hsame (ne_directory_of_file hfile), persist_of_locate hlocate hfree, hanew]

end

/-! ## The result -/

/-- **Persisting is all or nothing.**  Whoever stops before the last step, or fails at any one,
leaves what the store answers, be it a watermark, the default, or an error; there is one
exception, a path with a name that is too long for a file.  If persisting succeeds, the store
answers the watermark, bit for bit.  A temporary file that is left behind makes no difference to
what is loaded or persisted afterwards. -/
theorem persisting_is_all_or_nothing (tree : fs.IsTree) (hback : ".." ∉ s.path)
    (time : Binary64) :
    (∀ first later, s.persistSteps time = first ++ later → later ≠ [] →
      (s.runSteps first fs).2.IsTree ∧ s.AnswersAsBefore fs (s.runSteps first fs).2) ∧
    (∀ e after, s.persist fs time = (.error e, after) →
      after.IsTree ∧ s.AnswersAsBefore fs after) ∧
    (∀ after, s.persist fs time = (.ok (), after) →
      after.IsTree ∧ ∀ default, s.load after default = .ok time) ∧
    ∀ place, fs.locate s.temporary = .ok place → fs.node? place ≠ some .directory → ∀ content,
      (fs.set place (.file content)).IsTree ∧
      (∀ default, s.load (fs.set place (.file content)) default = s.load fs default) ∧
      ∀ next, s.persist (fs.set place (.file content)) next = s.persist fs next := by
  have hcut : ∀ first later, s.persistSteps time = first ++ later → later ≠ [] →
      (s.runSteps first fs).2.IsTree ∧ s.AnswersAsBefore fs (s.runSteps first fs).2 :=
    fun first _ hsteps hlater =>
      ⟨isTree_runSteps tree first, answersAsBefore_of_split tree hback hsteps hlater⟩
  refine ⟨hcut, ?_, ?_, ?_⟩
  · intro e after hpersist
    obtain ⟨first, later, hsteps, hlater, rfl⟩ := exists_stop hpersist
    exact hcut first later hsteps hlater
  · intro after hpersist
    have htree : (s.persist fs time).2.IsTree := isTree_runSteps tree _
    rw [hpersist] at htree
    exact ⟨htree, load_of_persist hpersist⟩
  · intro place hlocate hfree content
    exact ⟨tree.set (tree.locate hlocate) hfree _, load_set hlocate hfree content,
      persist_set hlocate hfree content⟩

end FileStore

namespace Sample

/-- A store in a directory. -/
def shelf : FileStore := ⟨["d", "w"]⟩

/-- The file of this store has three bytes. -/
def damaged : FileSystem := (FileSystem.empty.set ["d"] .directory).set ["d", "w"] (.file [1, 2, 3])

/-- A directory is in the way of its temporary file. -/
def blocked : FileSystem := damaged.set ["d", "w.tmp"] .directory

/-- Its temporary file was left behind. -/
def littered : FileSystem := damaged.set ["d", "w.tmp"] (.file [9])

lemma isTree_damaged : damaged.IsTree :=
  (FileSystem.isTree_empty.set (by decide) (by decide) _).set (by decide) (by decide) _

lemma isTree_blocked : blocked.IsTree := isTree_damaged.set (by decide) (by decide) _

/-- The time that is persisted. -/
def saved : Binary64 := ⟨0x400C000000000000⟩

/-- The default. -/
def fallback : Binary64 := ⟨0x401C000000000000⟩

/-- No name is too long for the store in the directory. -/
lemma load_shelf {fs now : FileSystem} (h : shelf.AnswersAsBefore fs now) (default : Binary64) :
    shelf.load now default = shelf.load fs default := by
  rcases h with hsame | ⟨⟨name, hmem, hlong⟩, -⟩
  · exact hsame default
  · exact absurd hlong (by revert name; decide +kernel)

end Sample

open Sample in
/-- A file of three bytes is found corrupt until a watermark has been persisted. -/
theorem persisting_is_all_or_nothing_damaged :
    damaged.IsTree ∧ blocked.IsTree ∧ ".." ∉ shelf.path ∧
    shelf.load (shelf.runSteps ((shelf.persistSteps saved).take 6) damaged).2 fallback =
      .error (.corrupt 3) ∧
    (shelf.persist blocked saved).1 = .error (.io .create) ∧
    shelf.load (shelf.persist blocked saved).2 fallback = .error (.corrupt 3) ∧
    shelf.load (shelf.persist damaged saved).2 fallback = .ok saved ∧
    shelf.load littered fallback = .error (.corrupt 3) ∧
    shelf.load (shelf.persist littered saved).2 fallback = .ok saved := by
  have hback : ".." ∉ shelf.path := by decide
  obtain ⟨hcut, -, hdone, hlitter⟩ :=
    FileStore.persisting_is_all_or_nothing isTree_damaged hback saved
  obtain ⟨-, hfailed, -, -⟩ := FileStore.persisting_is_all_or_nothing isTree_blocked hback saved
  have hdamaged : shelf.load damaged fallback = .error (.corrupt 3) := by decide +kernel
  have hblocked : shelf.load blocked fallback = .error (.corrupt 3) := by decide +kernel
  have hcreate : (shelf.persist blocked saved).1 = .error (.io .create) := by decide +kernel
  have hpersist : (shelf.persist damaged saved).1 = .ok () := by decide +kernel
  have hload := (hdone _ (Prod.ext hpersist rfl)).2 fallback
  obtain ⟨-, hloads, hpersists⟩ :=
    hlitter ["d", "w.tmp"] (by decide +kernel) (by decide +kernel) [9]
  have hsplit := (List.take_append_drop 6 (shelf.persistSteps saved)).symm
  refine ⟨isTree_damaged, isTree_blocked, hback, ?_, hcreate, ?_, hload, ?_, ?_⟩
  · exact (load_shelf (hcut _ _ hsplit (by decide +kernel)).2 fallback).trans hdamaged
  · exact (load_shelf (hfailed _ _ (Prod.ext hcreate rfl)).2 fallback).trans hblocked
  · exact (hloads fallback).trans hdamaged
  · exact (congrArg (fun result => shelf.load result.2 fallback) (hpersists saved)).trans hload

namespace Sample

/-- The directory in front of a name. -/
def opened : FileSystem := FileSystem.set .empty ["d"] .directory

section

variable {name : String} (hlong : Path.nameLimit < name.utf8ByteSize)
include hlong

/-- Where the directory is, a name behind it is found to be too long. -/
lemma locate_opened : opened.locate ["d", name] = .error .unusable := by
  have hdirectory : opened.enter [] "d" = .ok ["d"] := by decide +kernel
  rw [FileSystem.locate, FileSystem.follow_cons, hdirectory]
  dsimp only [bind, Except.bind]
  rw [FileSystem.follow_cons, FileSystem.enter_of_long (by decide) hlong]
  exact ite_self _

lemma persist_opens (time : Binary64) (hmore : Path.nameLimit < (name ++ ".tmp").utf8ByteSize) :
    FileStore.persist ⟨["d", name]⟩ .empty time = (.error (.io .create), opened) := by
  have hparent : Path.parent ["d", name] = ["d"] :=
    Path.parent_concat ["d"] (Path.isProper_of_long hlong).1
  have hmake : (FileStore.Step.makeDirectory 1).run ⟨["d", name]⟩ .empty = .ok opened := by
    rw [FileStore.run_makeDirectory_ok, hparent]
    exact ⟨by decide, rfl⟩
  have hcreate : FileStore.Step.createTemporary.run ⟨["d", name]⟩ opened =
      .error (.io .create) := by
    change (opened.writeFile ["d", name ++ ".tmp"] []).mapError _ = _
    rw [FileSystem.writeFile, locate_opened hmore]
    rfl
  rw [FileStore.persist, FileStore.persistSteps, hparent]
  change FileStore.runSteps _ (.makeDirectory 1 :: .createTemporary :: _) .empty = _
  rw [FileStore.runSteps, hmake]
  dsimp only
  rw [FileStore.runSteps, hcreate]

end

/-- A name that is one byte too long for a file. -/
def longName : String := String.ofList (List.replicate 256 'n')

lemma lt_longName : Path.nameLimit < longName.utf8ByteSize := by decide +kernel

lemma isUsable_longName : Path.isUsable ["d", longName] = true := by
  have hsize : Path.size ["d", longName] ≤ Path.sizeLimit := by decide +kernel
  have hlist : longName.toList = List.replicate 256 'n' := String.toList_ofList
  have hchars : longName.toList.all (· != '\x00') = true := by
    refine List.all_eq_true.2 ?_
    intro c hc
    rw [hlist] at hc
    obtain rfl := List.eq_of_mem_replicate hc
    rfl
  rw [Path.isUsable, List.all_cons, List.all_cons, hchars, decide_eq_true hsize]
  rfl

end Sample

open Sample in
/-- A name is found to be too long for a file only when the directory in front of it has been
made: the store that had answered the default fails to be read. -/
theorem failed_persist_denies_default :
    FileSystem.empty.IsTree ∧ ".." ∉ ["d", longName] ∧
    FileStore.load ⟨["d", longName]⟩ .empty fallback = .ok fallback ∧
    ∃ after, FileStore.persist ⟨["d", longName]⟩ .empty saved = (.error (.io .create), after) ∧
      FileStore.load ⟨["d", longName]⟩ after fallback = .error (.io .read) := by
  refine ⟨FileSystem.isTree_empty, by decide +kernel, ?_, opened,
    persist_opens lt_longName saved (by decide +kernel), ?_⟩
  · rw [FileStore.load, FileSystem.read, FileSystem.locate, if_pos isUsable_longName]
    rfl
  · rw [FileStore.load, FileSystem.read, locate_opened lt_longName]
    rfl

end PartitionKeys

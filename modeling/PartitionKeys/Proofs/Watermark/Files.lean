/-
# What a store has after a call

No operation on files takes a directory away, and whoever writes a file in place of another
finds no directory there.  So a path that leads to a place goes on leading there, and what has
been written at its place is what is read.  From this follows what a store answers once it has
persisted a watermark, or has forgotten it: the watermark, bit for bit, or the default.
-/
import PartitionKeys.Proofs.Version.Join
import PartitionKeys.Watermark.Store

namespace PartitionKeys

namespace FileSystem

variable {fs after : FileSystem} {path source target : Path} {place : Place}

/-! ## Following a path name by name -/

/-- The place that one name leads to. -/
def enter (fs : FileSystem) (place : Place) (name : String) : Except FileError Place :=
  match fs.node? place with
  | none => .error .notFound
  | some (.file _) => .error .obstructed
  | some .directory =>
    if Path.stays name then .ok place
    else if name = ".." then .ok place.dropLast
    else if Path.nameLimit < name.utf8ByteSize then .error .unusable
    else .ok (place ++ [name])

lemma follow_cons (fs : FileSystem) (place : Place) (name : String) (rest : Path) :
    fs.follow place (name :: rest) = fs.enter place name >>= fun place => fs.follow place rest := by
  rw [FileSystem.follow, enter]
  rcases fs.node? place with _ | (_ | content)
  · rfl
  · dsimp only
    split
    · rfl
    · split
      · rfl
      · split <;> rfl
  · rfl

/-- A name leads on from a directory only. -/
lemma node?_of_enter {start : Place} {name : String} (h : fs.enter start name = .ok place) :
    fs.node? start = some .directory := by
  unfold enter at h
  split at h
  · cases h
  · cases h
  · assumption

/-- What stands where a name is followed decides where it leads. -/
lemma enter_congr {start : Place} (h : after.node? start = fs.node? start) (name : String) :
    after.enter start name = fs.enter start name := by
  rw [enter, enter, h]

/-! ## Directories stay -/

/-- All directories are still there. -/
def KeepsDirectories (fs after : FileSystem) : Prop :=
  ∀ place, fs.node? place = some .directory → after.node? place = some .directory

lemma KeepsDirectories.trans {later : FileSystem} (keeps : KeepsDirectories fs after)
    (h : KeepsDirectories after later) : KeepsDirectories fs later :=
  fun place hdirectory => h place (keeps place hdirectory)

lemma keepsDirectories_set (h : fs.node? place ≠ some .directory) (node : Node) :
    KeepsDirectories fs (fs.set place node) := by
  intro other hdirectory
  have hne : other ≠ place := by
    rintro rfl
    exact h hdirectory
  rw [node?_set_of_ne hne, hdirectory]

lemma keepsDirectories_erase (h : fs.node? place ≠ some .directory) :
    KeepsDirectories fs (fs.erase place) := by
  intro other hdirectory
  have hne : other ≠ place := by
    rintro rfl
    exact h hdirectory
  rw [node?_erase_of_ne hne, hdirectory]

/-- Only directories lie on the way to a place. -/
lemma KeepsDirectories.follow (keeps : KeepsDirectories fs after) {start : Place}
    (h : fs.follow start path = .ok place) : after.follow start path = .ok place := by
  induction path generalizing start with
  | nil => exact h
  | cons name rest ih =>
    rw [follow_cons] at h ⊢
    obtain ⟨goal, henter, h⟩ := bind_eq_ok h
    have hdirectory := node?_of_enter henter
    have hsame : after.node? start = fs.node? start := by rw [keeps start hdirectory, hdirectory]
    rw [enter_congr hsame, henter]
    exact ih h

lemma KeepsDirectories.locate (keeps : KeepsDirectories fs after)
    (h : fs.locate path = .ok place) : after.locate path = .ok place := by
  unfold FileSystem.locate at h ⊢
  split at h
  · next husable =>
    rw [if_pos husable]
    exact keeps.follow h
  · cases h

/-! ## What operations do -/

lemma contentAt_ok {content : Bytes} :
    fs.contentAt place = .ok content ↔ fs.node? place = some (.file content) := by
  unfold contentAt
  split <;> simp_all

lemma read_ok {content : Bytes} : fs.read path = .ok content ↔
    ∃ place, fs.locate path = .ok place ∧ fs.node? place = some (.file content) := by
  constructor
  · intro h
    obtain ⟨place, hlocate, h⟩ := bind_eq_ok h
    exact ⟨place, hlocate, contentAt_ok.1 h⟩
  · rintro ⟨place, hlocate, hnode⟩
    rw [read, hlocate]
    exact contentAt_ok.2 hnode

lemma writeFile_ok {content : Bytes} (h : fs.writeFile path content = .ok after) :
    ∃ place, fs.locate path = .ok place ∧ fs.node? place ≠ some .directory ∧
      after = fs.set place (.file content) := by
  obtain ⟨place, hlocate, h⟩ := bind_eq_ok h
  split at h
  · cases h
  · next hfree => exact ⟨place, hlocate, hfree, (Except.ok.inj h).symm⟩

lemma append_ok {byte : UInt8} (h : fs.append path byte = .ok after) :
    ∃ place content, fs.locate path = .ok place ∧ fs.node? place = some (.file content) ∧
      after = fs.set place (.file (content ++ [byte])) := by
  obtain ⟨place, hlocate, h⟩ := bind_eq_ok h
  obtain ⟨content, hcontent, h⟩ := bind_eq_ok h
  exact ⟨place, content, hlocate, contentAt_ok.1 hcontent, (Except.ok.inj h).symm⟩

lemma rename_ok (h : fs.rename source target = .ok after) :
    ∃ place goal content, fs.locate source = .ok place ∧
      fs.node? place = some (.file content) ∧ fs.locate target = .ok goal ∧
      fs.node? goal ≠ some .directory ∧
      after = (fs.erase place).set goal (.file content) := by
  obtain ⟨place, hlocate, h⟩ := bind_eq_ok h
  obtain ⟨content, hcontent, h⟩ := bind_eq_ok h
  obtain ⟨goal, hgoal, h⟩ := bind_eq_ok h
  split at h
  · cases h
  · next hfree =>
    exact ⟨place, goal, content, hlocate, contentAt_ok.1 hcontent, hgoal, hfree,
      (Except.ok.inj h).symm⟩

lemma removeFile_ok (h : fs.removeFile path = .ok after) :
    ∃ place content, fs.locate path = .ok place ∧ fs.node? place = some (.file content) ∧
      after = fs.erase place := by
  obtain ⟨place, hlocate, h⟩ := bind_eq_ok h
  obtain ⟨content, hcontent, h⟩ := bind_eq_ok h
  exact ⟨place, content, hlocate, contentAt_ok.1 hcontent, (Except.ok.inj h).symm⟩

lemma ne_directory_of_file {content : Bytes} (h : fs.node? place = some (.file content)) :
    fs.node? place ≠ some .directory := by
  simp [h]

lemma ne_root_of_ne_directory (h : fs.node? place ≠ some .directory) : place ≠ [] := by
  rintro rfl
  exact h rfl

/-! ## What is read afterwards -/

/-- What is put at the place that a path leads to is read under this path. -/
lemma read_set {content : Bytes} (hlocate : fs.locate path = .ok place)
    (h : fs.node? place ≠ some .directory) :
    (fs.set place (.file content)).read path = .ok content :=
  read_ok.2 ⟨place, (keepsDirectories_set h _).locate hlocate,
    node?_set_self fs (ne_root_of_ne_directory h) _⟩

lemma read_of_writeFile {content : Bytes} (h : fs.writeFile path content = .ok after) :
    after.read path = .ok content := by
  obtain ⟨place, hlocate, hfree, rfl⟩ := writeFile_ok h
  exact read_set hlocate hfree

lemma read_of_append {content : Bytes} {byte : UInt8} (hread : fs.read path = .ok content)
    (h : fs.append path byte = .ok after) : after.read path = .ok (content ++ [byte]) := by
  obtain ⟨place, held, hlocate, hnode, rfl⟩ := append_ok h
  obtain rfl : held = content :=
    Except.ok.inj ((read_ok.2 ⟨place, hlocate, hnode⟩).symm.trans hread)
  exact read_set hlocate (ne_directory_of_file hnode)

lemma read_of_rename {content : Bytes} (hread : fs.read source = .ok content)
    (h : fs.rename source target = .ok after) : after.read target = .ok content := by
  obtain ⟨place, goal, held, hlocate, hnode, hgoal, hfree, rfl⟩ := rename_ok h
  obtain rfl : held = content :=
    Except.ok.inj ((read_ok.2 ⟨place, hlocate, hnode⟩).symm.trans hread)
  have hfile := ne_directory_of_file hnode
  refine read_set ((keepsDirectories_erase hfile).locate hgoal) ?_
  -- taking the source away makes no directory
  by_cases hsame : goal = place
  · rw [hsame, node?_erase_self fs (ne_root_of_ne_directory hfile)]
    simp
  · rw [node?_erase_of_ne hsame]
    exact hfree

lemma read_of_removeFile (h : fs.removeFile path = .ok after) :
    after.read path = .error .notFound := by
  obtain ⟨place, content, hlocate, hnode, rfl⟩ := removeFile_ok h
  have hfile := ne_directory_of_file hnode
  rw [read, (keepsDirectories_erase hfile).locate hlocate]
  change (fs.erase place).contentAt place = _
  rw [contentAt, node?_erase_self fs (ne_root_of_ne_directory hfile)]

/-- A file that cannot be removed cannot be read for the same reason. -/
lemma read_of_removeFile_error {e : FileError} (h : fs.removeFile path = .error e) :
    fs.read path = .error e := by
  cases hlocate : fs.locate path with
  | error f =>
    rw [removeFile, hlocate] at h
    rw [read, hlocate]
    cases h
    rfl
  | ok place =>
    rw [removeFile, hlocate] at h
    rw [read, hlocate]
    change (fs.contentAt place >>= fun _ => Except.ok (fs.erase place)) = .error e at h
    change fs.contentAt place = .error e
    cases hcontent : fs.contentAt place with
    | error f =>
      rw [hcontent] at h
      cases h
      rfl
    | ok content =>
      rw [hcontent] at h
      cases h

end FileSystem

/-! ## The store in a file -/

namespace FileStore

variable {s : FileStore} {fs after : FileSystem}

lemma runSteps_append_ok {first rest : List Step}
    (h : s.runSteps (first ++ rest) fs = (.ok (), after)) :
    ∃ between, s.runSteps first fs = (.ok (), between) ∧
      s.runSteps rest between = (.ok (), after) := by
  rw [runSteps_append] at h
  rcases hfirst : s.runSteps first fs with ⟨_ | _, between⟩
  · rw [hfirst] at h
    cases h
  · rw [hfirst] at h
    exact ⟨between, rfl, h⟩

lemma runSteps_cons_ok {step : Step} {rest : List Step}
    (h : s.runSteps (step :: rest) fs = (.ok (), after)) :
    ∃ between, step.run s fs = .ok between ∧ s.runSteps rest between = (.ok (), after) := by
  unfold runSteps at h
  cases hstep : step.run s fs with
  | error e =>
    rw [hstep] at h
    cases h
  | ok between =>
    rw [hstep] at h
    exact ⟨between, rfl, h⟩

/-- Bytes written one after the other stand behind what was there. -/
lemma read_temporary {bytes content : Bytes} (hread : fs.read s.temporary = .ok content)
    (h : s.runSteps (bytes.map .append) fs = (.ok (), after)) :
    after.read s.temporary = .ok (content ++ bytes) := by
  induction bytes generalizing fs content with
  | nil =>
    cases h
    rw [List.append_nil, hread]
  | cons byte rest ih =>
    obtain ⟨between, hstep, h⟩ := runSteps_cons_ok h
    have hbetween := FileSystem.read_of_append hread (mapError_ok hstep)
    rw [ih hbetween h, List.append_assoc]
    rfl

/-- Persisting, where it succeeds, puts the bytes of the watermark in the file. -/
lemma read_of_persist {time : Binary64} (h : s.persist fs time = (.ok (), after)) :
    after.read s.path = .ok time.toBytes := by
  unfold persist persistSteps at h
  obtain ⟨filled, h, hrename⟩ := runSteps_append_ok h
  obtain ⟨prepared, -, h⟩ := runSteps_append_ok h
  obtain ⟨created, hcreate, happend⟩ := runSteps_cons_ok h
  obtain ⟨renamed, hrename, hdone⟩ := runSteps_cons_ok hrename
  cases hdone
  have hempty := FileSystem.read_of_writeFile (mapError_ok hcreate)
  have hfilled := read_temporary hempty happend
  exact FileSystem.read_of_rename hfilled (mapError_ok hrename)

lemma load_of_persist {time : Binary64} (h : s.persist fs time = (.ok (), after))
    (default : Binary64) : s.load after default = .ok time := by
  unfold load
  rw [read_of_persist h]
  dsimp only
  rw [Binary64.ofBytes?_toBytes]

lemma load_of_delete (h : s.delete fs = (.ok (), after)) (default : Binary64) :
    s.load after default = .ok default := by
  have hread : after.read s.path = .error .notFound := by
    unfold delete at h
    cases hremove : fs.removeFile s.path with
    | ok removed =>
      rw [hremove] at h
      cases h
      exact FileSystem.read_of_removeFile hremove
    | error e =>
      rw [hremove] at h
      cases e with
      | notFound =>
        cases h
        exact FileSystem.read_of_removeFile_error hremove
      | obstructed => cases h
      | unusable => cases h
  unfold load
  rw [hread]

end FileStore

/-! ## What a store has -/

namespace WatermarkStore

variable {s after : WatermarkStore} {value : Option Binary64}

/-- The store can be loaded, and has a watermark or none. -/
def Has (s : WatermarkStore) (value : Option Binary64) : Prop :=
  ∀ default, s.load default = .ok (value.getD default)

lemma Has.loadFails (h : s.Has value) : s.loadFails = false := by
  cases hfails : s.loadFails with
  | false => rfl
  | true =>
    have hload := h .zero
    rw [load, if_pos hfails] at hload
    cases hload

lemma Has.persist (h : s.Has value) {time : Binary64}
    (hpersist : s.persist time = (.ok (), after)) : after.Has (some time) := by
  have hworks := h.loadFails
  obtain ⟨medium, loadFails, persistFails, deleteFails⟩ := s
  obtain rfl : loadFails = false := hworks
  unfold WatermarkStore.persist at hpersist
  split at hpersist
  · cases hpersist
  intro default
  cases medium with
  | memory store =>
    cases hpersist
    exact congrArg Except.ok (store.load_persist time default)
  | file store files =>
    dsimp only at hpersist
    rcases hfile : store.persist files time with ⟨result, changed⟩
    rw [hfile] at hpersist
    cases hpersist
    exact FileStore.load_of_persist hfile default

lemma Has.delete (h : s.Has value) (hdelete : s.delete = (.ok (), after)) : after.Has none := by
  have hworks := h.loadFails
  obtain ⟨medium, loadFails, persistFails, deleteFails⟩ := s
  obtain rfl : loadFails = false := hworks
  unfold WatermarkStore.delete at hdelete
  split at hdelete
  · cases hdelete
  intro default
  cases medium with
  | memory store =>
    cases hdelete
    exact congrArg Except.ok (store.load_delete default)
  | file store files =>
    dsimp only at hdelete
    rcases hfile : store.delete files with ⟨result, changed⟩
    rw [hfile] at hdelete
    cases hdelete
    exact FileStore.load_of_delete hfile default

end WatermarkStore

end PartitionKeys

/-
# Trees of directories

In a file system everything stands in a directory, and every operation on files keeps it so.
Hence below a place where nothing stands there is nothing either.  A path without steps back goes
down from the root name by name: if it can be followed at all, its own names tell the place that
it leads to.
-/
import Mathlib.Data.List.DropRight
import PartitionKeys.Proofs.Watermark.Places

namespace PartitionKeys

/-! ## Where a path goes -/

namespace Path

variable {path : Path} {name : String}

/-- The names that lead on, which are the place that a path without steps back leads to. -/
def goal (path : Path) : Place := path.filter fun name => !stays name

@[simp] lemma goal_append (first rest : Path) : goal (first ++ rest) = first.goal ++ rest.goal :=
  List.filter_append ..

lemma goal_cons (name : String) (rest : Path) : goal (name :: rest) = goal [name] ++ rest.goal :=
  goal_append [name] rest

lemma goal_singleton_of_stays (h : stays name = true) : goal [name] = [] := by
  simp [goal, h]

lemma goal_singleton (h : stays name = false) : goal [name] = [name] := by
  simp [goal, h]

/-- A path keeps its last name, unless this name stays where it stands. -/
lemma trimmed_concat (base : Path) (name : String) :
    trimmed (base ++ [name]) = if stays name then trimmed base else base ++ [name] :=
  List.rdropWhile_concat stays base name

lemma trimmed_isPrefix (path : Path) : trimmed path <+: path :=
  List.rdropWhile_prefix stays path

/-- Names at the end that stay where they stand lead nowhere. -/
lemma goal_trimmed (path : Path) : goal (trimmed path) = path.goal := by
  induction path using List.reverseRecOn with
  | nil => rfl
  | append_singleton base name ih =>
    rw [trimmed_concat]
    split
    · next hstays => rw [ih, goal_append, goal_singleton_of_stays hstays, List.append_nil]
    · rfl

/-- The directory of a path is in front of the last name. -/
lemma parent_isPrefix (path : Path) : path.parent <+: path.dropLast := by
  refine (trimmed_isPrefix _).trans ?_
  rcases List.eq_nil_or_concat' path with rfl | ⟨base, name, rfl⟩
  · exact List.prefix_rfl
  · rw [trimmed_concat, List.dropLast_concat]
    split
    · exact (List.dropLast_prefix _).trans (trimmed_isPrefix base)
    · simp

/-- What is left in the end leads on. -/
lemma stays_of_trimmed {base : Path} (h : trimmed path = base ++ [name]) : stays name = false := by
  have hsame : trimmed (base ++ [name]) = base ++ [name] :=
    h ▸ List.rdropWhile_idempotent stays path
  by_contra hstays
  rw [trimmed_concat, if_pos (by simpa using hstays)] at hsame
  have hlength := (trimmed_isPrefix base).length_le
  simp [hsame] at hlength

/-- The directory of a path is one name above its goal, unless the path has none. -/
lemma goal_eq_parent_append (h : path.parent ≠ []) :
    ∃ name, path.goal = path.parent.goal ++ [name] := by
  rcases List.eq_nil_or_concat' (trimmed path) with hempty | ⟨base, name, htrimmed⟩
  · rw [parent, hempty] at h
    exact absurd rfl h
  · refine ⟨name, ?_⟩
    rw [parent, goal_trimmed, ← goal_trimmed path, htrimmed, List.dropLast_concat, goal_append,
      goal_singleton (stays_of_trimmed htrimmed)]

/-- A name that has been made longer leads on. -/
lemma isProper_append (name ending : String) (h : 2 < ending.length) :
    IsProper (name ++ ending) :=
  isProper_of_length (by simp only [String.length_append]; omega)

/-- A name that is too long for a file leads on. -/
lemma isProper_of_long {name : String} (h : nameLimit < name.utf8ByteSize) : IsProper name := by
  have hne : ∀ short : String, short.utf8ByteSize ≤ nameLimit → name ≠ short := by
    rintro short hshort rfl
    exact absurd h (Nat.not_lt.2 hshort)
  refine ⟨?_, hne ".." (by decide)⟩
  simp [stays, hne "" (by decide), hne "." (by decide)]

/-- The bytes of a path are those of its parts. -/
lemma size_append (first rest : Path) : size (first ++ rest) = size first + size rest := by
  induction first with
  | nil => exact (Nat.zero_add _).symm
  | cons name first ih =>
    change name.utf8ByteSize + 1 + size (first ++ rest) =
      name.utf8ByteSize + 1 + size first + size rest
    rw [ih]
    omega

/-- The beginning of a usable path is usable. -/
lemma isUsable_of_isPrefix {first : Path} (h : first <+: path)
    (husable : path.isUsable = true) : first.isUsable = true := by
  obtain ⟨rest, rfl⟩ := h
  simp only [isUsable, size_append, List.all_append, Bool.and_eq_true, decide_eq_true_eq]
    at husable ⊢
  exact ⟨by omega, husable.2.1⟩

end Path

namespace FileSystem

variable {fs after : FileSystem} {start place other : Place} {path : Path} {name : String}

lemma locate_ok :
    fs.locate path = .ok place ↔ path.isUsable = true ∧ fs.follow [] path = .ok place := by
  unfold locate
  cases path.isUsable <;> simp

/-- A name that does not lead back leads to the place of its own. -/
lemma enter_goal (hname : name ≠ "..") (h : fs.enter start name = .ok place) :
    place = start ++ Path.goal [name] := by
  cases hstays : Path.stays name with
  | false =>
    rw [Path.goal_singleton hstays]
    exact enter_proper ⟨hstays, hname⟩ h
  | true =>
    rw [Path.goal_singleton_of_stays hstays, List.append_nil]
    unfold enter at h
    split at h
    · cases h
    · cases h
    · rw [if_pos hstays] at h
      exact (Except.ok.inj h).symm

/-- From a directory a name leads on, unless it is too long. -/
lemma enter_of_directory (hname : name ≠ "..") (h : fs.node? start = some .directory) :
    fs.enter start name = .ok (start ++ Path.goal [name]) ∨
      (fs.enter start name = .error .unusable ∧ Path.nameLimit < name.utf8ByteSize) := by
  cases henter : fs.enter start name with
  | ok goal => exact .inl (congrArg Except.ok (enter_goal hname henter))
  | error e =>
    right
    rw [enter, h] at henter
    simp only [if_neg hname] at henter
    split at henter
    · cases henter
    split at henter
    · next hlong =>
      cases henter
      exact ⟨rfl, hlong⟩
    · cases henter

lemma enter_of_long (h : fs.node? start = some .directory)
    (hlong : Path.nameLimit < name.utf8ByteSize) : fs.enter start name = .error .unusable := by
  rw [enter, h]
  have hproper := Path.isProper_of_long hlong
  simp [hproper.1, hproper.2, hlong]

lemma follow_goal (hback : ".." ∉ path) (h : fs.follow start path = .ok place) :
    place = start ++ path.goal := by
  induction path generalizing start with
  | nil =>
    cases h
    exact (List.append_nil _).symm
  | cons name rest ih =>
    rw [List.mem_cons, not_or] at hback
    rw [follow_cons] at h
    obtain ⟨goal, henter, h⟩ := bind_eq_ok h
    rw [ih hback.2 h, enter_goal (Ne.symm hback.1) henter, List.append_assoc, ← Path.goal_cons]

lemma locate_goal (hback : ".." ∉ path) (h : fs.locate path = .ok place) : place = path.goal :=
  follow_goal hback (locate_ok.1 h).2

/-- In front of a name that leads on there is a directory. -/
lemma exists_directory {first rest : Path}
    (h : fs.locate (first ++ name :: rest) = .ok place) :
    ∃ directory, fs.locate first = .ok directory ∧ fs.node? directory = some .directory := by
  obtain ⟨husable, h⟩ := locate_ok.1 h
  rw [follow_append] at h
  obtain ⟨directory, hfirst, h⟩ := bind_eq_ok h
  rw [follow_cons] at h
  obtain ⟨next, henter, -⟩ := bind_eq_ok h
  have hbegins := Path.isUsable_of_isPrefix (List.prefix_append first (name :: rest)) husable
  exact ⟨directory, locate_ok.2 ⟨hbegins, hfirst⟩, node?_of_enter henter⟩

/-! ## Trees -/

/-- Whatever stands somewhere stands in a directory. -/
def IsTree (fs : FileSystem) : Prop :=
  ∀ place name, fs.node? (place ++ [name]) ≠ none → fs.node? place = some .directory

lemma isTree_empty : IsTree .empty := by
  intro place name h
  exact absurd (by simp [node?, empty]) h

namespace IsTree

/-- Where nothing stands, nothing stands below. -/
lemma node?_eq_none (tree : fs.IsTree) (h : fs.node? place = none) (hbelow : place <+: other) :
    fs.node? other = none := by
  obtain ⟨rest, rfl⟩ := hbelow
  induction rest using List.reverseRecOn with
  | nil => rwa [List.append_nil]
  | append_singleton rest name ih =>
    by_contra hne
    rw [← List.append_assoc] at hne
    rw [tree _ name hne] at ih
    cases ih

/-- Above a place where something stands there are directories. -/
lemma dropLast (tree : fs.IsTree) (h : fs.node? place ≠ none) :
    fs.node? place.dropLast = some .directory := by
  rcases List.eq_nil_or_concat' place with rfl | ⟨above, name, rfl⟩
  · rfl
  · rw [List.dropLast_concat]
    exact tree above name h

/-- What a path leads to is to stand in a directory. -/
lemma enter (tree : fs.IsTree) (h : fs.enter start name = .ok place) :
    fs.node? place.dropLast = some .directory := by
  have hstart := node?_of_enter h
  have habove := tree.dropLast (ne_of_eq_of_ne hstart (by simp))
  unfold FileSystem.enter at h
  rw [hstart] at h
  dsimp only at h
  split at h
  · cases h
    exact habove
  split at h
  · cases h
    exact tree.dropLast (ne_of_eq_of_ne habove (by simp))
  split at h
  · cases h
  · cases h
    rwa [List.dropLast_concat]

lemma locate (tree : fs.IsTree) (h : fs.locate path = .ok place) :
    fs.node? place.dropLast = some .directory := by
  rcases List.eq_nil_or_concat' path with rfl | ⟨base, name, rfl⟩
  · cases h
    rfl
  · obtain ⟨directory, -, henter⟩ := locate_concat_ok h
    exact tree.enter henter

/-- A tree stays one if something is put into a directory, in place of nothing or of a file. -/
lemma set (tree : fs.IsTree) (habove : fs.node? place.dropLast = some .directory)
    (hfree : fs.node? place ≠ some .directory) (node : Node) : (fs.set place node).IsTree := by
  intro above name h
  by_cases hplace : above ++ [name] = place
  · subst hplace
    rw [List.dropLast_concat] at habove
    rw [node?_set_of_ne (by simp), habove]
  · rw [node?_set_of_ne hplace] at h
    have hdirectory := tree above name h
    exact keepsDirectories_set hfree node above hdirectory

lemma erase (tree : fs.IsTree) (hfree : fs.node? place ≠ some .directory) :
    (fs.erase place).IsTree := by
  intro above name h
  by_cases hplace : above ++ [name] = place
  · subst hplace
    rw [node?_erase_self fs (by simp)] at h
    exact absurd rfl h
  · rw [node?_erase_of_ne hplace] at h
    exact keepsDirectories_erase hfree above (tree above name h)

/-! ## What operations keep -/

lemma makeDirectory (tree : fs.IsTree) (h : fs.makeDirectory path = .ok after) : after.IsTree := by
  obtain ⟨place, hlocate, ⟨rfl, -⟩ | ⟨rfl, hnone⟩⟩ := makeDirectory_ok h
  · exact tree
  · exact tree.set (tree.locate hlocate) (by simp [hnone]) _

lemma writeFile {content : Bytes} (tree : fs.IsTree) (h : fs.writeFile path content = .ok after) :
    after.IsTree := by
  obtain ⟨place, hlocate, hfree, rfl⟩ := writeFile_ok h
  exact tree.set (tree.locate hlocate) hfree _

lemma append {byte : UInt8} (tree : fs.IsTree) (h : fs.append path byte = .ok after) :
    after.IsTree := by
  obtain ⟨place, content, hlocate, hnode, rfl⟩ := append_ok h
  exact tree.set (tree.locate hlocate) (ne_directory_of_file hnode) _

/-- The file is taken away from its place, and what it comes in place of is no directory. -/
lemma rename {source target : Path} (tree : fs.IsTree) (h : fs.rename source target = .ok after) :
    after.IsTree := by
  obtain ⟨place, goal, content, hlocate, hnode, hgoal, hfree, rfl⟩ := rename_ok h
  have hfile := ne_directory_of_file hnode
  refine (tree.erase hfile).set (keepsDirectories_erase hfile _ (tree.locate hgoal)) ?_ _
  exact fun hdirectory => hfree (keepsDirectories_of_erase fs place goal hdirectory)

lemma removeFile (tree : fs.IsTree) (h : fs.removeFile path = .ok after) : after.IsTree := by
  obtain ⟨place, content, -, hnode, rfl⟩ := removeFile_ok h
  exact tree.erase (ne_directory_of_file hnode)

end IsTree

end FileSystem

end PartitionKeys

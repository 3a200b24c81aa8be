/-
# Files of several owners in one directory

Several stores keep their files in one directory.  Each of them makes the directories on the
way as far as they are missing, and apart from this touches the places of its own files only.
So the file system is at all times between two others: the one at the beginning and the one in
which the directories have been made.  In the latter all paths can be followed; at any time
before, a path leads to the same place or to nothing.
-/
import PartitionKeys.Proofs.Watermark.Names
import PartitionKeys.Proofs.Watermark.Files

namespace PartitionKeys

namespace FileSystem

variable {fs opened now after later : FileSystem} {start place : Place} {path base : Path}
  {own : List Place}

/-! ## Following a path to its last name -/

lemma follow_append (fs : FileSystem) (start : Place) (first rest : Path) :
    fs.follow start (first ++ rest) =
      fs.follow start first >>= fun place => fs.follow place rest := by
  induction first generalizing start with
  | nil => rfl
  | cons name first ih =>
    rw [List.cons_append, follow_cons, follow_cons]
    cases fs.enter start name with
    | error e => rfl
    | ok place => exact ih place

/-- The last name of a path leads on from a directory. -/
lemma locate_concat_ok {name : String} (h : fs.locate (base ++ [name]) = .ok place) :
    ∃ directory, fs.follow [] base = .ok directory ∧ fs.enter directory name = .ok place := by
  unfold locate at h
  split at h
  · rw [follow_append] at h
    obtain ⟨directory, hbase, h⟩ := bind_eq_ok h
    rw [follow_cons] at h
    obtain ⟨goal, henter, h⟩ := bind_eq_ok h
    obtain rfl : goal = place := Except.ok.inj h
    exact ⟨directory, hbase, henter⟩
  · cases h

lemma enter_proper {name : String} (hname : Path.IsProper name)
    (h : fs.enter start name = .ok place) : place = start ++ [name] := by
  unfold enter at h
  split at h
  · cases h
  · cases h
  · rw [if_neg (by simp [hname.1]), if_neg hname.2] at h
    split at h
    · cases h
    · exact (Except.ok.inj h).symm

/-- Two proper names lead from one directory to two places. -/
lemma locate_ne {name other : String} {goal : Place} (hname : Path.IsProper name)
    (hother : Path.IsProper other) (hne : name ≠ other)
    (h : fs.locate (base ++ [name]) = .ok place) (hgoal : fs.locate (base ++ [other]) = .ok goal) :
    place ≠ goal := by
  obtain ⟨directory, hbase, henter⟩ := locate_concat_ok h
  obtain ⟨same, hsame, henter'⟩ := locate_concat_ok hgoal
  obtain rfl : directory = same := Except.ok.inj (hbase.symm.trans hsame)
  rw [enter_proper hname henter, enter_proper hother henter']
  simpa using hne

/-- A name that is longer for an ending leads elsewhere. -/
lemma enter_append_ne {name ending : String} {goal : Place} (hending : 2 < ending.length)
    (h : fs.enter start name = .ok place) (hgoal : fs.enter start (name ++ ending) = .ok goal) :
    place ≠ goal := by
  have hlength : (name ++ ending).length = name.length + ending.length := by
    simp
  rw [enter_proper (Path.isProper_of_length (by omega)) hgoal]
  unfold enter at h
  split at h
  · cases h
  · cases h
  · split at h
    · obtain rfl := Except.ok.inj h
      simp
    split at h
    · obtain rfl := Except.ok.inj h
      intro hsame
      have := congrArg List.length hsame
      simp only [List.length_dropLast, List.length_append, List.length_singleton] at this
      omega
    split at h
    · cases h
    · obtain rfl := Except.ok.inj h
      intro hsame
      have hname := congrArg String.length (List.singleton_inj.1 (List.append_cancel_left hsame))
      omega

/-- The temporary file does not stand in the place of the file itself. -/
lemma locate_withEnding_ne {ending : String} {beside : Place} (hending : 2 < ending.length)
    (h : fs.locate path = .ok place) (hbeside : fs.locate (path.withEnding ending) = .ok beside) :
    place ≠ beside := by
  rcases List.eq_nil_or_concat' path with rfl | ⟨base, name, rfl⟩
  · obtain rfl : [] = place := Except.ok.inj h
    have hname : fs.locate ([] ++ ["" ++ ending]) = .ok beside := hbeside
    obtain ⟨directory, -, henter⟩ := locate_concat_ok hname
    rw [enter_proper (Path.isProper_of_length (by simpa using hending)) henter]
    simp
  · rw [Path.withEnding_concat] at hbeside
    obtain ⟨directory, hbase, henter⟩ := locate_concat_ok h
    obtain ⟨same, hsame, henter'⟩ := locate_concat_ok hbeside
    obtain rfl : directory = same := Except.ok.inj (hbase.symm.trans hsame)
    exact enter_append_ne hending henter henter'

lemma ne_root_of_eq_none (h : fs.node? place = none) : place ≠ [] := by
  rintro rfl
  cases h

/-! ## What changes at most -/

/-- What can be different afterwards: the given places, where no directory is put, and the
directories of `opened`, which can be made. -/
def Touches (opened : FileSystem) (own : List Place) (now after : FileSystem) : Prop :=
  ∀ place, after.node? place = now.node? place ∨
    (place ∈ own ∧ after.node? place ≠ some .directory) ∨
    (opened.node? place = some .directory ∧ after.node? place = some .directory)

namespace Touches

lemma refl (opened : FileSystem) (own : List Place) (now : FileSystem) :
    Touches opened own now now :=
  fun _ => .inl rfl

lemma trans (h : Touches opened own now after) (hlater : Touches opened own after later) :
    Touches opened own now later := by
  intro place
  rcases hlater place with hsame | hchanged
  · rw [hsame]
    exact h place
  · exact .inr hchanged

lemma mono {more : List Place} (h : Touches opened own now after) (hown : own ⊆ more) :
    Touches opened more now after := by
  intro place
  rcases h place with hsame | ⟨hmine, hne⟩ | hmade
  · exact .inl hsame
  · exact .inr (.inl ⟨hown hmine, hne⟩)
  · exact .inr (.inr hmade)

lemma set_file (h : place ∈ own) (hroot : place ≠ []) (content : Bytes) :
    Touches opened own now (now.set place (.file content)) := by
  intro other
  by_cases hother : other = place
  · subst hother
    refine .inr (.inl ⟨h, ?_⟩)
    rw [node?_set_self now hroot]
    simp
  · exact .inl (node?_set_of_ne hother now _)

lemma set_directory (hopened : opened.node? place = some .directory)
    (hnone : now.node? place = none) : Touches opened own now (now.set place .directory) := by
  intro other
  by_cases hother : other = place
  · subst hother
    exact .inr (.inr ⟨hopened, node?_set_self now (ne_root_of_eq_none hnone) _⟩)
  · exact .inl (node?_set_of_ne hother now _)

lemma erase (h : place ∈ own) (hroot : place ≠ []) :
    Touches opened own now (now.erase place) := by
  intro other
  by_cases hother : other = place
  · subst hother
    refine .inr (.inl ⟨h, ?_⟩)
    rw [node?_erase_self now hroot]
    simp
  · exact .inl (node?_erase_of_ne hother now)

/-- Whatever else is not a directory in the end stays as it is. -/
lemma elsewhere (h : Touches opened own now after) (hplace : place ∉ own)
    (hfree : opened.node? place ≠ some .directory) : after.node? place = now.node? place := by
  rcases h place with hsame | ⟨hown, -⟩ | ⟨hdirectory, -⟩
  · exact hsame
  · exact absurd hown hplace
  · exact absurd hdirectory hfree

end Touches

/-! ## Between the beginning and the directories -/

/-- The directories of `fs` are there, and some of those of `opened`; at the places of the
others is nothing. -/
structure Between (fs opened now : FileSystem) : Prop where
  kept : KeepsDirectories fs now
  known : KeepsDirectories now opened
  clear : ∀ place, opened.node? place = some .directory →
    now.node? place = some .directory ∨ now.node? place = none

namespace Between

/-- Who makes directories and touches places of files only, stays in between. -/
lemma touches (between : Between fs opened now) (h : Touches opened own now after)
    (hown : ∀ place ∈ own, opened.node? place ≠ some .directory) :
    Between fs opened after ∧ KeepsDirectories now after := by
  have hkeeps : KeepsDirectories now after := by
    intro place hnow
    rcases h place with hsame | ⟨hmine, -⟩ | ⟨-, hmade⟩
    · rw [hsame, hnow]
    · exact absurd (between.known place hnow) (hown place hmine)
    · exact hmade
  refine ⟨⟨between.kept.trans hkeeps, ?_, ?_⟩, hkeeps⟩
  · intro place hafter
    rcases h place with hsame | ⟨-, hne⟩ | ⟨hopened, -⟩
    · exact between.known place (hsame ▸ hafter)
    · exact absurd hafter hne
    · exact hopened
  · intro place hopened
    rcases h place with hsame | ⟨hmine, -⟩ | ⟨-, hmade⟩
    · rw [hsame]
      exact between.clear place hopened
    · exact absurd hopened (hown place hmine)
    · exact .inl hmade

/-- A path that can be followed in the end leads to the same place, or to nothing yet. -/
lemma follow (between : Between fs opened now) (h : opened.follow start path = .ok place) :
    now.follow start path = .ok place ∨ now.follow start path = .error .notFound := by
  induction path generalizing start with
  | nil => exact .inl h
  | cons name rest ih =>
    rw [follow_cons] at h ⊢
    obtain ⟨goal, henter, h⟩ := bind_eq_ok h
    have hopened := node?_of_enter henter
    rcases between.clear start hopened with hnow | hnow
    · rw [enter_congr (hnow.trans hopened.symm), henter]
      exact ih h
    · right
      rw [enter, hnow]
      rfl

lemma locate (between : Between fs opened now) (h : opened.locate path = .ok place) :
    now.locate path = .ok place ∨ now.locate path = .error .notFound := by
  unfold FileSystem.locate at h ⊢
  split at h
  · next husable =>
    rw [if_pos husable]
    exact between.follow h
  · cases h

end Between

/-! ## Making directories -/

/-- Nothing has changed, but directories were made where nothing was. -/
def Makes (fs after : FileSystem) : Prop :=
  ∀ place, after.node? place = fs.node? place ∨
    (fs.node? place = none ∧ after.node? place = some .directory)

lemma makeDirectory_ok (h : fs.makeDirectory path = .ok after) :
    ∃ place, fs.locate path = .ok place ∧
      (after = fs ∧ fs.node? place = some .directory ∨
        after = fs.set place .directory ∧ fs.node? place = none) := by
  obtain ⟨place, hlocate, h⟩ := bind_eq_ok h
  refine ⟨place, hlocate, ?_⟩
  split at h
  · next hnone => exact .inr ⟨(Except.ok.inj h).symm, hnone⟩
  · next hdirectory => exact .inl ⟨(Except.ok.inj h).symm, hdirectory⟩
  · cases h

lemma makeDirectory_of_directory (hlocate : fs.locate path = .ok place)
    (h : fs.node? place = some .directory) : fs.makeDirectory path = .ok fs := by
  simp only [FileSystem.makeDirectory, hlocate, bind, Except.bind, h]

lemma makeDirectory_of_none (hlocate : fs.locate path = .ok place) (h : fs.node? place = none) :
    fs.makeDirectory path = .ok (fs.set place .directory) := by
  simp only [FileSystem.makeDirectory, hlocate, bind, Except.bind, h]

lemma makes_of_makeDirectory (h : fs.makeDirectory path = .ok after) : Makes fs after := by
  obtain ⟨place, -, ⟨rfl, -⟩ | ⟨rfl, hnone⟩⟩ := makeDirectory_ok h
  · exact fun _ => .inl rfl
  · intro other
    by_cases hother : other = place
    · subst hother
      exact .inr ⟨hnone, node?_set_self fs (ne_root_of_eq_none hnone) _⟩
    · exact .inl (node?_set_of_ne hother fs _)

lemma Makes.trans (h : Makes fs now) (hlater : Makes now later) : Makes fs later := by
  intro place
  rcases hlater place with hsame | ⟨hnone, hmade⟩
  · rw [hsame]
    exact h place
  · rcases h place with hsame | ⟨-, hdirectory⟩
    · exact .inr ⟨hsame ▸ hnone, hmade⟩
    · rw [hnone] at hdirectory
      cases hdirectory

lemma Makes.between (h : Makes fs opened) : Between fs opened fs where
  kept := fun _ hdirectory => hdirectory
  known := by
    intro place hdirectory
    rcases h place with hsame | ⟨-, hmade⟩
    · rw [hsame, hdirectory]
    · exact hmade
  clear := by
    intro place hopened
    rcases h place with hsame | ⟨hnone, -⟩
    · exact .inl (hsame ▸ hopened)
    · exact .inr hnone

lemma Makes.node?_eq_none (h : Makes fs opened) (hnone : opened.node? place = none) :
    fs.node? place = none := by
  rcases h place with hsame | ⟨-, hmade⟩
  · rw [← hsame, hnone]
  · rw [hnone] at hmade
    cases hmade

/-- A directory that can be made can still be made when others have been made. -/
lemma Between.makeDirectory {prior made : FileSystem} (between : Between fs opened now)
    (own : List Place) (keeps : KeepsDirectories prior now)
    (h : prior.makeDirectory path = .ok made) (hopened : KeepsDirectories made opened) :
    ∃ after, now.makeDirectory path = .ok after ∧ Touches opened own now after ∧
      KeepsDirectories made after := by
  obtain ⟨place, hlocate, hprior⟩ := makeDirectory_ok h
  have hmade : made.node? place = some .directory := by
    rcases hprior with ⟨rfl, hdirectory⟩ | ⟨rfl, hnone⟩
    · exact hdirectory
    · exact node?_set_self prior (ne_root_of_eq_none hnone) _
  have hnew : ∀ other, made.node? other = some .directory →
      prior.node? other = some .directory ∨ other = place := by
    intro other hother
    by_cases hne : other = place
    · exact .inr hne
    · rcases hprior with ⟨rfl, -⟩ | ⟨rfl, -⟩
      · exact .inl hother
      · rw [node?_set_of_ne hne] at hother
        exact .inl hother
  rcases between.clear place (hopened place hmade) with hnow | hnow
  · refine ⟨now, makeDirectory_of_directory (keeps.locate hlocate) hnow, .refl opened own now, ?_⟩
    intro other hother
    rcases hnew other hother with hold | rfl
    · exact keeps other hold
    · exact hnow
  · refine ⟨now.set place .directory, makeDirectory_of_none (keeps.locate hlocate) hnow,
      .set_directory (hopened place hmade) hnow, ?_⟩
    intro other hother
    rcases hnew other hother with hold | rfl
    · exact keepsDirectories_set (by simp [hnow]) _ other (keeps other hold)
    · exact node?_set_self now (ne_root_of_eq_none hnow) _

/-! ## Files at places that are known -/

lemma writeFile_of_locate (hlocate : fs.locate path = .ok place)
    (h : fs.node? place ≠ some .directory) (content : Bytes) :
    fs.writeFile path content = .ok (fs.set place (.file content)) := by
  simp only [writeFile, hlocate, bind, Except.bind]

lemma append_of_locate {content : Bytes} (hlocate : fs.locate path = .ok place)
    (h : fs.node? place = some (.file content)) (byte : UInt8) :
    fs.append path byte = .ok (fs.set place (.file (content ++ [byte]))) := by
  simp only [FileSystem.append, hlocate, contentAt_ok.2 h, bind, Except.bind]

lemma rename_of_locate {source target : Path} {goal : Place} {content : Bytes}
    (hlocate : fs.locate source = .ok place) (h : fs.node? place = some (.file content))
    (hgoal : fs.locate target = .ok goal) (hfree : fs.node? goal ≠ some .directory) :
    fs.rename source target = .ok ((fs.erase place).set goal (.file content)) := by
  simp only [rename, hlocate, contentAt_ok.2 h, hgoal, bind, Except.bind]

lemma removeFile_of_locate {content : Bytes} (hlocate : fs.locate path = .ok place)
    (h : fs.node? place = some (.file content)) : fs.removeFile path = .ok (fs.erase place) := by
  simp only [removeFile, hlocate, contentAt_ok.2 h, bind, Except.bind]

/-- Where one place changes, and no directory comes there, no directory is made. -/
lemma keepsDirectories_of_ne (hsame : ∀ other, other ≠ place → after.node? other = fs.node? other)
    (hplace : place ≠ [] → after.node? place ≠ some .directory) : KeepsDirectories after fs := by
  intro other hother
  by_cases hne : other = place
  · subst hne
    by_cases hroot : other = []
    · rw [hroot]
      rfl
    · exact absurd hother (hplace hroot)
  · rwa [← hsame other hne]

lemma keepsDirectories_of_set_file (fs : FileSystem) (place : Place) (content : Bytes) :
    KeepsDirectories (fs.set place (.file content)) fs :=
  keepsDirectories_of_ne (fun _ hne => node?_set_of_ne hne fs _)
    fun hroot => by simp [node?_set_self fs hroot]

lemma keepsDirectories_of_erase (fs : FileSystem) (place : Place) :
    KeepsDirectories (fs.erase place) fs :=
  keepsDirectories_of_ne (fun _ hne => node?_erase_of_ne hne fs)
    fun hroot => by simp [node?_erase_self fs hroot]

lemma contentAt_of_none (h : fs.node? place = none) : fs.contentAt place = .error .notFound := by
  rw [contentAt, h]

lemma contentAt_notFound (h : fs.contentAt place = .error .notFound) : fs.node? place = none := by
  unfold contentAt at h
  split at h
  · cases h
  · cases h
  · assumption

/-- Nothing is read, and nothing removed, where a path leads to nothing. -/
lemma read_of_vacant (h : fs.locate path = .ok place ∨ fs.locate path = .error .notFound)
    (hnone : fs.node? place = none) :
    fs.read path = .error .notFound ∧ fs.removeFile path = .error .notFound := by
  rcases h with h | h
  · simp only [read, removeFile, h, contentAt_of_none hnone, bind, Except.bind, and_self]
  · simp only [read, removeFile, h, bind, Except.bind, and_self]

end FileSystem

end PartitionKeys

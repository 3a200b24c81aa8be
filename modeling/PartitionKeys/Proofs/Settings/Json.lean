/-
# Settings and their documents

A document of settings has every field, and every field but the retention is read back as it
was written.  Settings that have been checked pass the check again.  So checked settings survive
their document exactly if the retention alone survives being written and read: it does if it is
a whole number or another number with few digits, an infinite one is written as `null`, which no
number is read from, and of the others some come back as a neighbour.
-/
import PartitionKeys.Settings.Json
import PartitionKeys.Proofs.Json.Float
import PartitionKeys.Proofs.Settings.Checked
import PartitionKeys.Proofs.Version.Join

namespace PartitionKeys

open Json

lemma TableKind.readsBack_name (kind : TableKind) :
    ReadsBack TableKind.read (writeText kind.name) kind :=
  readsBack_alternative (by cases kind <;> rfl)

lemma KeyHash.readsBack_name (hash : KeyHash) : ReadsBack KeyHash.read (writeText hash.name) hash :=
  readsBack_alternative (by cases hash <;> rfl)

namespace Settings

lemma readsBack_partition (partition : UInt32) :
    ReadsBack readPartition (writeInt partition.toNat) partition := by
  intro rest hrest
  have hlt := partition.toNat_lt
  have hread : ReadsBack (readInteger 0 0xffffffff) (writeInt partition.toNat) partition.toNat :=
    readsBack_writeInt (by omega) (by omega) (by omega) (by omega)
  rw [readPartition, hread rest hrest]
  simp [bind, Except.bind]

lemma readsBack_columns (columns : List String) :
    ReadsBack readColumns (writeArray (columns.map writeText)) columns := by
  have hread := readsBack_writeArray columns (fun name _ => readsBack_writeText name)
    (fun name _ => startsValue_writeText name)
  rwa [List.map_id'] at hread

lemma readsBack_optionalText (text : Option String) :
    ReadsBack (readOptional readText) (writeOptional writeText text) text :=
  readsBack_writeOptional readsBack_writeText startsValue_writeText text

/-! ## The fields of a document -/

/-- A field that is taken if it has not occurred before. -/
def onceField {α : Type} (name : String) (before : Draft → Option α) (written : List Char)
    (outcome : Except Fault α) (set : Draft → α → Draft) : WrittenField Draft where
  name := name
  written := written
  outcome d :=
    match before d with
    | some _ => .error (.mismatch (.duplicateField name))
    | none => outcome.map (set d)

lemma readsAs_readOnce {α : Type} {name : String} {before : Draft → Option α} {value : Reader α}
    {written : List Char} {outcome : Except Fault α} {set : Draft → α → Draft}
    (h : ReadsAs value written outcome)
    (hfield : ∀ d, readField name d = readOnce name (before d) value (set d)) :
    (onceField name before written outcome set).IsFoldedBy readField := by
  intro d rest hrest
  have hcolon : skipColon (':' :: (written ++ rest)) = .ok (written ++ rest) := rfl
  simp only [onceField, hfield, List.cons_append]
  unfold readOnce
  cases before d with
  | some _ => rfl
  | none =>
    simp only [hcolon, bind, Except.bind, h rest hrest]
    cases outcome <;> rfl

/-- The fields of a document, in order. -/
def documentFields (s : Settings) : List (WrittenField Draft) :=
  [onceField "table_name_with_type" Draft.table (writeText s.table) (.ok s.table)
      fun d x => { d with table := some x },
    onceField "partition_id" Draft.partition (writeInt s.partition.toNat) (.ok s.partition)
      fun d x => { d with partition := some x },
    onceField "mode" Draft.kind (writeText s.kind.name) (.ok s.kind)
      fun d x => { d with kind := some x },
    onceField "primary_key_columns" Draft.keyColumns (writeArray (s.keyColumns.map writeText))
      (.ok s.keyColumns) fun d x => { d with keyColumns := some x },
    onceField "comparison_columns" Draft.comparisonColumns
      (writeArray (s.comparisonColumns.map writeText)) (.ok s.comparisonColumns)
      fun d x => { d with comparisonColumns := some x },
    onceField "metadata_ttl" Draft.ttl (writeBinary64 s.ttl) (reread s.ttl)
      fun d x => { d with ttl := some x },
    onceField "time_column" Draft.timeColumn (writeOptional writeText s.timeColumn)
      (.ok s.timeColumn) fun d x => { d with timeColumn := some x },
    onceField "table_index_dir" Draft.directory (writeOptional writeText s.directory)
      (.ok s.directory) fun d x => { d with directory := some x },
    onceField "hash_function" Draft.hash (writeText s.hash.name) (.ok s.hash)
      fun d x => { d with hash := some x }]

lemma toDocument_eq (s : Settings) :
    s.toDocument = String.ofList
      ('\x7b' :: separated (s.documentFields.map WrittenField.text) ++ ['\x7d']) := rfl

lemma documentFields_folded (s : Settings) :
    ∀ f ∈ s.documentFields, f.IsFoldedBy readField := by
  simp only [documentFields, List.forall_mem_cons]
  refine ⟨?_, ?_, ?_, ?_, ?_, ?_, ?_, ?_, ?_, by simp⟩
  · exact readsAs_readOnce (readsBack_writeText _).readsAs fun _ => rfl
  · exact readsAs_readOnce (readsBack_partition _).readsAs fun _ => rfl
  · exact readsAs_readOnce s.kind.readsBack_name.readsAs fun _ => rfl
  · exact readsAs_readOnce (readsBack_columns _).readsAs fun _ => rfl
  · exact readsAs_readOnce (readsBack_columns _).readsAs fun _ => rfl
  · exact readsAs_readOnce (readsAs_writeBinary64 _) fun _ => rfl
  · exact readsAs_readOnce (readsBack_optionalText _).readsAs fun _ => rfl
  · exact readsAs_readOnce (readsBack_optionalText _).readsAs fun _ => rfl
  · exact readsAs_readOnce s.hash.readsBack_name.readsAs fun _ => rfl

/-- What has been read when the fields of a document have been taken. -/
lemma foldAll_documentFields (s : Settings) :
    (WrittenField.foldAll s.documentFields {}).bind Draft.complete =
      (reread s.ttl).map fun ttl => { s with ttl } := by
  simp only [documentFields, WrittenField.foldAll, onceField, bind, Except.bind, Except.map]
  cases reread s.ttl <;> rfl

/-- **Of a document, everything but the retention is read as it was written.** -/
theorem readWhole_toDocument (s : Settings) :
    readWhole read s.toDocument = (reread s.ttl).map fun ttl => { s with ttl } := by
  rw [toDocument_eq]
  refine ReadsAs.readWhole ?_
  intro rest _
  have hfold := foldFields_separated s.documentFields {} rest s.documentFields_folded
  have hcomplete := s.foldAll_documentFields
  have hopen : '\x7b' :: separated (s.documentFields.map WrittenField.text) ++ ['\x7d'] ++ rest =
      '\x7b' :: (separated (s.documentFields.map WrittenField.text) ++ '\x7d' :: rest) := by simp
  rw [hopen, read, skipBlank_cons (by decide)]
  simp only [hfold, bind]
  rw [← hcomplete]
  cases WrittenField.foldAll s.documentFields {} with
  | error fault => rfl
  | ok draft =>
    simp only [Except.map, Except.bind]
    cases draft.complete <;> rfl

/-- A document is checked as the settings with the retention that is read from it. -/
theorem ofDocument_toDocument (s : Settings) :
    ofDocument s.toDocument =
      match reread s.ttl with
      | .error fault => .error (.unparsable fault)
      | .ok ttl => ({ s with ttl } : Settings).checked.mapError .refused := by
  rw [ofDocument, readWhole_toDocument]
  cases reread s.ttl <;> rfl

lemma reread_zero : reread Binary64.zero = .ok Binary64.zero :=
  reread_of_short (by decide) fun hne => absurd (by decide) hne

/-- What is not finite is not read back. -/
lemma reread_of_not_finite {x : Binary64} (h : x.isFinite = false) :
    reread x = .error (.mismatch .invalidType) := by
  have hinfinite : Binary64.infiniteMagnitude ≤ x.magnitude := by simpa [Binary64.isFinite] using h
  rw [reread, (readsAs_infinite hinfinite).readWhole]

/-- **Settings survive their document if the retention does.**  Checked settings are read back
from their document exactly if the retention alone is read back from its text.  An infinite
retention is not, and the document is refused; a whole number is, as long as it fits into
fifty-three bits with one more digit, and so is any number with a short decimal. -/
theorem settings_survive_json_iff {c s : Settings} (h : c.checked = .ok s) :
    (ofDocument s.toDocument = .ok s ↔ reread s.ttl = .ok s.ttl) ∧
      (s.ttl.isFinite = false →
        ofDocument s.toDocument = .error (.unparsable (.mismatch .invalidType))) ∧
      (∀ n : Nat, 10 * n < 2 ^ 53 → s.ttl = Binary64.ofInt n → ofDocument s.toDocument = .ok s) ∧
      (s.ttl.isFinite = true →
        (s.ttl.magnitude ≠ 0 → (Binary64.shortest .even s.ttl.magnitude).IsShort) →
        ofDocument s.toDocument = .ok s) := by
  have hdocument := s.ofDocument_toDocument
  have hsurvives : reread s.ttl = .ok s.ttl → ofDocument s.toDocument = .ok s := by
    intro hread
    rw [hdocument, hread]
    show s.checked.mapError _ = _
    rw [checked_of_checked h]
    rfl
  refine ⟨⟨?_, hsurvives⟩, ?_, ?_, ?_⟩
  · intro hsame
    cases hread : reread s.ttl with
    | error fault =>
      rw [hdocument, hread] at hsame
      cases hsame
    | ok ttl =>
      rw [hdocument, hread] at hsame
      obtain ⟨-, hfilled⟩ := isNormal_of_checked (mapError_ok hsame)
      have httl : s.ttl = clampTtl ttl := by rw [hfilled.same]
      by_cases hneg : ttl < Binary64.zero
      · -- a negative number would be clamped to zero, but zero is read as zero
        rw [clampTtl, if_pos hneg] at httl
        rw [httl, reread_zero] at hread
        rw [← Except.ok.inj hread] at hneg
        exact absurd hneg (Binary64.lt_irrefl _)
      · rw [httl, clampTtl_eq hneg]
  · intro hinfinite
    rw [hdocument, reread_of_not_finite hinfinite]
  · intro n hn httl
    refine hsurvives ?_
    rw [httl]
    exact reread_ofInt hn
  · intro hfinite hshort
    exact hsurvives (reread_of_short hfinite hshort)

end Settings

namespace Sample

/-- A table that keeps keys for so long behind the watermark. -/
def retaining (ttl : Binary64) : Settings where
  table := "orders"
  partition := 4
  kind := .upsert
  keyColumns := ["id"]
  comparisonColumns := ["at"]
  ttl := ttl
  timeColumn := some "at"

end Sample

open Sample in
/-- A retention of a day, in seconds. -/
theorem settings_survive_json_daily :
    (retaining (Binary64.ofInt (86400 : Nat))).checked =
        .ok (retaining (Binary64.ofInt (86400 : Nat))) ∧
      Settings.ofDocument (retaining (Binary64.ofInt (86400 : Nat))).toDocument =
        .ok (retaining (Binary64.ofInt (86400 : Nat))) := by
  have hchecked : (retaining (Binary64.ofInt (86400 : Nat))).checked =
      .ok (retaining (Binary64.ofInt (86400 : Nat))) := by decide +kernel
  exact ⟨hchecked, (Settings.settings_survive_json_iff hchecked).2.2.1 86400 (by decide) rfl⟩

open Sample in
/-- Two retentions that the check lets through and that do not survive: the infinite one, and the
whole number 1801439850948199, which is read back as its neighbour. -/
theorem settings_can_be_lost_in_json :
    (retaining ⟨0x7ff0000000000000⟩).checked = .ok (retaining ⟨0x7ff0000000000000⟩) ∧
      Settings.ofDocument (retaining ⟨0x7ff0000000000000⟩).toDocument =
        .error (.unparsable (.mismatch .invalidType)) ∧
      Binary64.ofInt 1801439850948199 = ⟨4835064559944964508⟩ ∧
      (retaining ⟨4835064559944964508⟩).checked = .ok (retaining ⟨4835064559944964508⟩) ∧
      Settings.ofDocument (retaining ⟨4835064559944964508⟩).toDocument =
        .ok (retaining ⟨4835064559944964509⟩) := by
  have hread : reread ⟨4835064559944964508⟩ = .ok ⟨4835064559944964509⟩ := by
    rw [reread, (readsAs_finite (by decide +kernel)).readWhole]
    decide +kernel
  refine ⟨by decide +kernel, ?_, by decide +kernel, by decide +kernel, ?_⟩
  · rw [Settings.ofDocument_toDocument]
    have hinfinite : reread (retaining ⟨0x7ff0000000000000⟩).ttl =
        .error (.mismatch .invalidType) := Settings.reread_of_not_finite (by decide)
    rw [hinfinite]
  · rw [Settings.ofDocument_toDocument]
    have hneighbour : reread (retaining ⟨4835064559944964508⟩).ttl = .ok ⟨4835064559944964509⟩ :=
      hread
    rw [hneighbour]
    decide +kernel

end PartitionKeys

/-
# The names of watermark files

The watermark of a partition is kept in the directory of its table, and the temporary file
stands beside it.  However the directory is written, the paths of all these files differ in
their last names only.  A last name tells the partition, the kind of the table and whether
the file is the temporary one: the digits of the partition end where the ending begins.  So
no two of the files can ever stand at one place.
-/
import Mathlib.Data.String.Basic
import Mathlib.Tactic.Common
import PartitionKeys.Watermark.Basic
import PartitionKeys.Path

namespace PartitionKeys

/-! ## The last name of a path -/

namespace Path

/-- The name leads further: it neither stays where it stands nor leads back. -/
def IsProper (name : String) : Prop := stays name = false ∧ name ≠ ".."

lemma isProper_of_length {name : String} (h : 2 < name.length) : IsProper name := by
  constructor
  · have hempty : name ≠ "" := by
      rintro rfl
      exact absurd h (by decide)
    have hdot : name ≠ "." := by
      rintro rfl
      exact absurd h (by decide)
    simp [stays, hempty, hdot]
  · rintro rfl
    exact absurd h (by decide)

lemma isProper_of_stem (lead : String) {stem : String} (h : 2 < stem.length)
    (number ending : String) : IsProper (lead ++ (stem ++ number ++ ending)) := by
  refine isProper_of_length ?_
  simp only [String.length_append]
  omega

lemma withEnding_concat (base : Path) (name ending : String) :
    withEnding (base ++ [name]) ending = base ++ [name ++ ending] := by
  simp [withEnding]

/-- What is in front of the last name leads to the directory. -/
lemma parent_concat (base : Path) {name : String} (h : stays name = false) :
    parent (base ++ [name]) = trimmed base := by
  have htrimmed : trimmed (base ++ [name]) = base ++ [name] := by
    simp [trimmed, h]
  rw [parent, htrimmed, List.dropLast_concat]

end Path

/-- A stretch without separators makes the last part longer, and no more parts. -/
lemma exists_splitOnP_append {p : Char → Bool} (front : List Char) :
    ∃ parts lead, ∀ stretch : List Char, (∀ c ∈ stretch, p c = false) →
      (front ++ stretch).splitOnP p = parts ++ [lead ++ stretch] := by
  induction front with
  | nil =>
    refine ⟨[], [], ?_⟩
    intro stretch h
    exact List.splitOnP_eq_singleton (by simpa using h)
  | cons c front ih =>
    obtain ⟨parts, lead, hsplit⟩ := ih
    cases hc : p c with
    | true =>
      refine ⟨[] :: parts, lead, ?_⟩
      intro stretch h
      rw [List.cons_append, List.splitOnP_cons_eq_if_modifyHead, if_pos hc, hsplit stretch h,
        List.cons_append]
    | false =>
      cases parts with
      | nil =>
        refine ⟨[], c :: lead, ?_⟩
        intro stretch h
        rw [List.cons_append, List.splitOnP_cons_eq_if_modifyHead, if_neg (by simp [hc]),
          hsplit stretch h]
        rfl
      | cons part parts =>
        refine ⟨(c :: part) :: parts, lead, ?_⟩
        intro stretch h
        rw [List.cons_append, List.splitOnP_cons_eq_if_modifyHead, if_neg (by simp [hc]),
          hsplit stretch h]
        rfl

/-! ## What a file name tells -/

/-- Digits end where something else begins. -/
lemma takeWhile_toDigits (n : Nat) {rest : List Char} (h : ∀ c ∈ rest.head?, c.isDigit = false) :
    (Nat.toDigits 10 n ++ rest).takeWhile Char.isDigit = Nat.toDigits 10 n := by
  rw [List.takeWhile_append_of_pos fun c hc =>
    Nat.isDigit_of_mem_toDigits (by decide) (by decide) hc]
  cases rest with
  | nil => exact List.append_nil _
  | cons c rest => rw [List.takeWhile_cons_of_neg (by simp [h c rfl]), List.append_nil]

lemma toDigits_append_inj {m n : Nat} {rest more : List Char}
    (hrest : ∀ c ∈ rest.head?, c.isDigit = false) (hmore : ∀ c ∈ more.head?, c.isDigit = false)
    (h : Nat.toDigits 10 m ++ rest = Nat.toDigits 10 n ++ more) : m = n ∧ rest = more := by
  have hdigits : Nat.toDigits 10 m = Nat.toDigits 10 n := by
    rw [← takeWhile_toDigits m hrest, h, takeWhile_toDigits n hmore]
  constructor
  · rw [← Nat.ofDigitChars_ten_toDigits (n := m), hdigits, Nat.ofDigitChars_ten_toDigits]
  · rw [hdigits] at h
    exact List.append_cancel_left h

lemma numbered_inj {stem rest more : String} {m n : Nat}
    (hrest : ∀ c ∈ rest.toList.head?, c.isDigit = false)
    (hmore : ∀ c ∈ more.toList.head?, c.isDigit = false)
    (h : stem ++ m.repr ++ rest = stem ++ n.repr ++ more) : m = n ∧ rest = more := by
  have hlist := congrArg String.toList h
  simp only [String.toList_append, List.append_assoc, Nat.toList_repr] at hlist
  obtain ⟨hnumber, hends⟩ := toDigits_append_inj hrest hmore (List.append_cancel_left hlist)
  exact ⟨hnumber, String.toList_inj.1 hends⟩

namespace Watermark

/-- What follows the number of the partition in the name of a file. -/
def ending (kind : TableKind) (temporary : Bool) : String :=
  (match kind with
    | .dedup => ".dedup"
    | .upsert => "") ++ if temporary then ".tmp" else ""

lemma ending_inj {kind other : TableKind} {temporary target : Bool}
    (h : ending kind temporary = ending other target) : kind = other ∧ temporary = target := by
  cases kind <;> cases other <;> cases temporary <;> cases target <;>
    first
    | exact ⟨rfl, rfl⟩
    | exact absurd h (by decide)

/-- The name of the file, or of its temporary file. -/
def name (partition : UInt32) (kind : TableKind) (temporary : Bool) : String :=
  "ttl.watermark.partition." ++ partition.toNat.repr ++ ending kind temporary

lemma fileName_eq (partition : UInt32) (kind : TableKind) :
    fileName partition kind = name partition kind false := by
  cases kind with
  | dedup => rfl
  | upsert => exact (String.append_empty).symm

lemma name_tmp (partition : UInt32) (kind : TableKind) :
    name partition kind false ++ ".tmp" = name partition kind true := by
  have hending : ending kind false ++ ".tmp" = ending kind true := by
    cases kind <;> decide
  unfold name
  rw [String.append_assoc, hending]

lemma head?_ending (kind : TableKind) (temporary : Bool) :
    ∀ c ∈ (ending kind temporary).toList.head?, c.isDigit = false := by
  have hdot : (ending kind temporary).toList.head?.all (· == '.') = true := by
    cases kind <;> cases temporary <;> decide
  intro c hc
  rw [Option.mem_def.1 hc, Option.all_some, beq_iff_eq] at hdot
  rw [hdot]
  rfl

lemma name_inj {p q : UInt32} {kind other : TableKind} {temporary target : Bool}
    (h : name p kind temporary = name q other target) :
    p = q ∧ kind = other ∧ temporary = target := by
  obtain ⟨hnumber, hending⟩ :=
    numbered_inj (head?_ending kind temporary) (head?_ending other target) h
  exact ⟨UInt32.toNat_inj.1 hnumber, ending_inj hending⟩

/-! ## The paths of a directory -/

lemma ne_slash_of_mem_name {partition : UInt32} {kind : TableKind} {temporary : Bool} {c : Char}
    (h : c ∈ (name partition kind temporary).toList) : (c == '/') = false := by
  have hstems : "ttl.watermark.partition.".toList.all (· != '/') = true := by decide
  have hendings : (ending kind temporary).toList.all (· != '/') = true := by
    cases kind <;> cases temporary <;> decide
  unfold name at h
  rw [String.toList_append, String.toList_append, Nat.toList_repr, List.mem_append,
    List.mem_append] at h
  rcases h with (hstem | hnumber) | hending
  · simpa using List.all_eq_true.1 hstems c hstem
  · have hdigit := Nat.isDigit_of_mem_toDigits (by decide) (by decide) hnumber
    refine beq_false_of_ne ?_
    rintro rfl
    exact absurd hdigit (by decide)
  · simpa using List.all_eq_true.1 hendings c hending

lemma isProper_append_name (lead : String) (partition : UInt32) (kind : TableKind)
    (temporary : Bool) : Path.IsProper (lead ++ name partition kind temporary) :=
  Path.isProper_of_stem lead (by decide) _ _

/-- The directory alone decides what is in front of the name of a file. -/
lemma exists_ofText_path (directory : String) : ∃ base lead, ∀ partition kind,
    Path.ofText (path directory partition kind) = base ++ [lead ++ name partition kind false] := by
  obtain ⟨front, hfront⟩ : ∃ front, ∀ partition kind,
      path directory partition kind = front ++ name partition kind false := by
    by_cases h : (directory.isEmpty || directory.endsWith "/") = true
    · refine ⟨directory, ?_⟩
      intro partition kind
      rw [path, if_pos h, fileName_eq]
    · refine ⟨directory ++ "/", ?_⟩
      intro partition kind
      rw [path, if_neg h, fileName_eq]
  obtain ⟨parts, lead, hsplit⟩ := exists_splitOnP_append (p := (· == '/')) front.toList
  refine ⟨parts.map String.ofList, String.ofList lead, ?_⟩
  intro partition kind
  rw [Path.ofText, String.splitToList_of_valid, hfront, String.toList_append,
    hsplit _ fun c hc => ne_slash_of_mem_name hc]
  simp

end Watermark

end PartitionKeys

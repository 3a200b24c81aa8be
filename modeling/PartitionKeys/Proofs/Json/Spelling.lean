/-
# How a floating point number is spelled in JSON

A finite number is written as the digits of its shortest decimal, with a point among them or
with an exponent behind them.  The text is a number of the grammar, so that one number is read
from it, whatever stands behind; what is not finite is no number.
-/
import PartitionKeys.Proofs.Binary64.Shortest
import PartitionKeys.Proofs.Json.Values

namespace PartitionKeys

open Json

/-! ## The digits of a decimal -/

namespace Layout

/-- Digits that start with one that is not zero. -/
structure IsSignificant (digits : List Char) : Prop where
  lead : ∃ c more, digits = c :: more ∧ c ≠ '0'
  all_digits : ∀ c ∈ digits, isDigit c = true

lemma IsSignificant.numeral {digits : List Char} (h : IsSignificant digits) :
    IsNumeral digits := by
  obtain ⟨c, more, rfl, -⟩ := h.lead
  exact ⟨List.cons_ne_nil _ _, h.all_digits⟩

/-- What is cut off at the end are zeros. -/
lemma exists_dropZeros (all : List Char) : ∃ zeros : Nat,
    all = (all.reverse.dropWhile (· == '0')).reverse ++ List.replicate zeros '0' := by
  have hzeros : (all.reverse.takeWhile (· == '0')).reverse =
      List.replicate (all.reverse.takeWhile (· == '0')).length '0' := by
    rw [List.eq_replicate_iff]
    refine ⟨List.length_reverse, fun c hc => ?_⟩
    have := List.all_eq_true.1 List.all_takeWhile c (List.mem_reverse.1 hc)
    simpa using this
  refine ⟨(all.reverse.takeWhile (· == '0')).length, ?_⟩
  rw [← hzeros, ← List.reverse_append, List.takeWhile_append_dropWhile, List.reverse_reverse]

/-- The digits of a decimal are taken apart into the significant ones and zeros at the end. -/
lemma digitsAndPoint_spec {d : Decimal} (h : d.digits ≠ 0) :
    ∃ (digits : List Char) (zeros : Nat),
      digitsAndPoint d = (digits, digits.length + zeros + d.exponent) ∧
      IsSignificant digits ∧ Nat.toDigits 10 d.digits = digits ++ List.replicate zeros '0' := by
  obtain ⟨zeros, hsplit⟩ := exists_dropZeros (Nat.toDigits 10 d.digits)
  have hpair : digitsAndPoint d =
      (((Nat.toDigits 10 d.digits).reverse.dropWhile (· == '0')).reverse,
        (Nat.toDigits 10 d.digits).length + d.exponent) := rfl
  generalize ((Nat.toDigits 10 d.digits).reverse.dropWhile (· == '0')).reverse = digits
    at hsplit hpair
  have hlength := congrArg List.length hsplit
  rw [List.length_append, List.length_replicate] at hlength
  refine ⟨digits, zeros, ?_, ⟨?_, ?_⟩, hsplit⟩
  · rw [hpair, hlength]
    simp
  · -- the first digit of all is not zero, so that it is a significant one
    obtain ⟨c, more, hc, hne⟩ := toDigits_head (Nat.pos_of_ne_zero h)
    rw [hc] at hsplit
    cases digits with
    | nil =>
      have hmem : c ∈ List.replicate zeros '0' := by
        rw [List.nil_append] at hsplit
        rw [← hsplit]
        simp
      exact absurd (List.eq_of_mem_replicate hmem) hne
    | cons digit digits =>
      obtain ⟨rfl, -⟩ := List.cons.inj hsplit
      exact ⟨_, _, rfl, hne⟩
  · intro c hc
    refine (isNumeral_toDigits d.digits).all_digits c ?_
    rw [hsplit]
    exact List.mem_append_left _ hc

end Layout

/-! ## The spelling of a number -/

namespace Json

open Layout

namespace Literal

variable {digits : List Char}

/-- The number that is spelled for significant digits with the point at a place. -/
def ofDigits (negative : Bool) (digits : List Char) (point : Int) : Literal :=
  if numberLayout.positional (point - 1) then
    if point ≤ 0 then
      ⟨negative, ['0'], some (List.replicate (-point).toNat '0' ++ digits), none⟩
    else if digits.length ≤ point.toNat then
      ⟨negative, digits ++ List.replicate (point.toNat - digits.length) '0', some ['0'], none⟩
    else ⟨negative, digits.take point.toNat, some (digits.drop point.toNat), none⟩
  else
    ⟨negative, digits.take 1, if digits.length ≤ 1 then none else some (digits.drop 1),
      some (decide (point - 1 < 0), Nat.toDigits 10 (point - 1).natAbs)⟩

/-- The number that is spelled for a finite floating point number. -/
def ofBinary64 (x : Binary64) : Literal :=
  if x.magnitude = 0 then ⟨x.isNegative, ['0'], some ['0'], none⟩
  else
    ofDigits x.isNegative (digitsAndPoint (Binary64.shortest .even x.magnitude)).1
      (digitsAndPoint (Binary64.shortest .even x.magnitude)).2

/-- The sign of a number. -/
def sign (negative : Bool) : List Char := if negative then ['-'] else []

lemma chars_ofDigits (negative : Bool) (digits : List Char) (point : Int) :
    (ofDigits negative digits point).chars = sign negative ++
      if numberLayout.positional (point - 1) then positionalText true digits point
      else exponentText true digits (point - 1) := by
  unfold ofDigits
  split
  · unfold positionalText
    split
    · simp [chars, sign, fractionChars, exponentChars]
    split
    · simp [chars, sign, fractionChars, exponentChars]
    · simp [chars, sign, fractionChars, exponentChars]
  · -- the exponent is spelled as a whole number, with a plus if there is no minus
    have hexponent : ∀ e : Int, exponentChars (some (decide (e < 0), Nat.toDigits 10 e.natAbs)) =
        'e' :: ((if true && decide (0 ≤ e) then ['+'] else []) ++ writeInt e) := by
      intro e
      rw [writeInt_eq]
      rcases Int.lt_or_le e 0 with h | h
      · simp [exponentChars, ofInt, chars, fractionChars, h]
      · simp [exponentChars, ofInt, chars, fractionChars, h]
    rw [chars, hexponent]
    unfold exponentText
    split
    · simp [sign, fractionChars, writeInt]
    · simp [sign, fractionChars, writeInt]

/-- **A finite number is written as the number that is spelled for it.** -/
theorem writeBinary64_eq {x : Binary64} (h : x.isFinite = true) :
    writeBinary64 x = (ofBinary64 x).chars := by
  have hfinite := Binary64.isFinite_iff.1 h
  have hnan := Binary64.isNaN_of_isFinite h
  have hinfinite : x.magnitude ≠ Binary64.infiniteMagnitude := hfinite.ne
  have htext : writeBinary64 x = sign x.isNegative ++ numberLayout.magnitudeText x.magnitude := by
    rw [writeBinary64, if_neg (Nat.not_le.2 hfinite), Layout.text]
    simp only [hnan, Bool.false_eq_true, if_false, hinfinite]
    cases x.isNegative <;> simp [sign]
  rw [htext, ofBinary64, magnitudeText]
  split
  · cases x.isNegative <;> rfl
  · rw [chars_ofDigits]
    rfl

/-! ## The spelling is a number of the grammar -/

lemma isNumeral_append {digits more : List Char} (h : IsNumeral digits)
    (hmore : ∀ c ∈ more, isDigit c = true) : IsNumeral (digits ++ more) := by
  refine ⟨by simp [h.ne_nil], fun c hc => ?_⟩
  rcases List.mem_append.1 hc with hc | hc
  · exact h.all_digits c hc
  · exact hmore c hc

lemma isNumeral_zero : IsNumeral ['0'] where
  ne_nil := by simp
  all_digits := by
    intro c hc
    rw [List.mem_singleton.1 hc]
    rfl

lemma isDigit_of_mem_replicate {zeros : Nat} {c : Char} (h : c ∈ List.replicate zeros '0') :
    isDigit c = true := by
  rw [List.eq_of_mem_replicate h]
  rfl

/-- Digits that start with a significant one have no leading zero. -/
lemma lead_ne {c d : Char} {more tail : List Char} (h : c ≠ '0') :
    c :: more ≠ '0' :: d :: tail := by
  intro heq
  exact h (List.cons.inj heq).1

theorem grammatical_ofDigits (negative : Bool) (point : Int) (h : IsSignificant digits) :
    (ofDigits negative digits point).Grammatical := by
  have hall := h.all_digits
  have hnumeral := h.numeral
  obtain ⟨c, more, rfl, hlead⟩ := h.lead
  unfold ofDigits
  split
  · split
    · refine ⟨isNumeral_zero, by simp, ?_, by simp⟩
      rintro _ ⟨⟩
      refine ⟨by simp, fun d hd => ?_⟩
      rcases List.mem_append.1 hd with hd | hd
      · exact isDigit_of_mem_replicate hd
      · exact hall d hd
    split
    · refine ⟨isNumeral_append hnumeral fun d hd => isDigit_of_mem_replicate hd,
        fun _ _ => lead_ne hlead, ?_, by simp⟩
      rintro _ ⟨⟩
      exact isNumeral_zero
    · -- the point stands between two of the digits
      rename_i hpoint hlength
      obtain ⟨k, hk⟩ : ∃ k, point.toNat = k + 1 := ⟨point.toNat - 1, by omega⟩
      rw [hk] at hlength ⊢
      refine ⟨⟨by simp, fun d hd => hall d (List.mem_of_mem_take hd)⟩,
        fun _ _ => lead_ne hlead, ?_, by simp⟩
      rintro _ ⟨⟩
      exact ⟨by simpa using hlength, fun d hd => hall d (List.mem_of_mem_drop hd)⟩
  · refine ⟨⟨by simp, fun d hd => hall d (List.mem_of_mem_take hd)⟩, by simp, ?_, ?_⟩
    · intro tail htail
      dsimp only at htail
      split at htail
      · cases htail
      · rename_i hlength
        cases htail
        exact ⟨by simpa using hlength, fun d hd => hall d (List.mem_of_mem_drop hd)⟩
    · rintro _ ⟨⟩
      exact isNumeral_toDigits _

theorem grammatical_ofBinary64 (x : Binary64) : (ofBinary64 x).Grammatical := by
  unfold ofBinary64
  split
  · exact ⟨isNumeral_zero, by simp, by rintro _ ⟨⟩; exact isNumeral_zero, by simp⟩
  · rename_i hne
    obtain ⟨digits, zeros, hspec, hsignificant, -⟩ := digitsAndPoint_spec
      (Binary64.shortest_names .even (Nat.pos_of_ne_zero hne)).digits_ne_zero
    rw [hspec]
    exact grammatical_ofDigits _ _ hsignificant

end Literal

/-- A number as it is read back after it has been written. -/
def reread (x : Binary64) : Except Fault Binary64 :=
  readWhole readBinary64 (String.ofList (writeBinary64 x))

lemma ReadsAs.readWhole {α : Type} {read : Reader α} {written : List Char}
    {outcome : Except Fault α} (h : ReadsAs read written outcome) :
    readWhole read (String.ofList written) = outcome := by
  have hread := h [] endsNumber_nil
  rw [List.append_nil] at hread
  rw [Json.readWhole, String.toList_ofList, hread]
  cases outcome <;> rfl

lemma readsAs_finite {x : Binary64} (h : x.isFinite = true) :
    ReadsAs readBinary64 (writeBinary64 x)
      ((Literal.ofBinary64 x).value.map Number.toBinary64) := by
  intro rest hrest
  have hgrammatical := Literal.grammatical_ofBinary64 x
  have hread := readNumber_chars hgrammatical hrest
  obtain ⟨c, more, hchars, hc⟩ := hgrammatical.head
  rw [Literal.writeBinary64_eq h]
  rw [hchars, List.cons_append] at hread ⊢
  rw [readBinary64, readAnyNumber_cons hc, hread]
  cases (Literal.ofBinary64 x).value <;> rfl

/-- What is not finite is written as the word for a missing value, which is no number. -/
lemma readsAs_infinite {x : Binary64} (h : Binary64.infiniteMagnitude ≤ x.magnitude) :
    ReadsAs readBinary64 (writeBinary64 x) (.error (.mismatch .invalidType)) := by
  intro rest _
  rw [writeBinary64, if_pos h]
  rfl

/-- **Every number has one outcome** when it is read back, whatever stands behind it. -/
theorem readsAs_writeBinary64 (x : Binary64) :
    ReadsAs readBinary64 (writeBinary64 x) (reread x) := by
  obtain ⟨outcome, houtcome⟩ : ∃ outcome, ReadsAs readBinary64 (writeBinary64 x) outcome := by
    rcases Nat.lt_or_ge x.magnitude Binary64.infiniteMagnitude with h | h
    · exact ⟨_, readsAs_finite (Binary64.isFinite_iff.2 h)⟩
    · exact ⟨_, readsAs_infinite h⟩
  rw [reread, houtcome.readWhole]
  exact houtcome

end Json

end PartitionKeys

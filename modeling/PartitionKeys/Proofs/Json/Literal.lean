/-
# A spelled number is read back

A number that is spelled by the grammar is taken from the front of a text again, character by
character, provided that the text does not go on with something that belongs to a number.
The digits of a natural number evaluate to it; so a whole number of sixty-four bits that is
written out is read back exactly.
-/
import PartitionKeys.Json.Writer
import PartitionKeys.Json.Number
import Mathlib.Tactic.Common

namespace PartitionKeys

namespace Json

/-! ## Digits -/

lemma isDigit_eq (c : Char) : isDigit c = c.isDigit := rfl

/-- At least one digit, and nothing else. -/
structure IsNumeral (digits : List Char) : Prop where
  ne_nil : digits ≠ []
  all_digits : ∀ c ∈ digits, isDigit c = true

lemma isNumeral_toDigits (n : Nat) : IsNumeral (Nat.toDigits 10 n) where
  ne_nil := Nat.toDigits_ne_nil
  all_digits := by
    intro c hc
    rw [isDigit_eq]
    exact Nat.isDigit_of_mem_toDigits (by omega) (by omega) hc

/-- The digits of a positive number start with one that is not zero. -/
lemma toDigits_head {n : Nat} (h : 0 < n) :
    ∃ c more, Nat.toDigits 10 n = c :: more ∧ c ≠ '0' := by
  induction n using Nat.strongRecOn with
  | ind n ih =>
    rw [Nat.toDigits_eq_if (by omega)]
    split
    · refine ⟨n.digitChar, [], rfl, ?_⟩
      rw [Ne, Nat.digitChar_eq_zero]
      omega
    · obtain ⟨c, more, hmore, hc⟩ := ih (n / 10) (by omega) (by omega)
      exact ⟨c, more ++ [(n % 10).digitChar], by rw [hmore, List.cons_append], hc⟩

lemma le_ofDigitChars (digits : List Char) (n : Nat) : n ≤ Nat.ofDigitChars 10 digits n := by
  induction digits generalizing n with
  | nil => simp
  | cons c digits ih =>
    rw [Nat.ofDigitChars_cons]
    have := ih (10 * n + (c.toNat - '0'.toNat))
    omega

/-- Digits whose value fits into sixty-four bits are all taken up. -/
lemma accumulate_eq {n : Nat} {digits : List Char}
    (h : Nat.ofDigitChars 10 digits n < UInt64.size) :
    accumulate n digits = (Nat.ofDigitChars 10 digits n, []) := by
  induction digits generalizing n with
  | nil => simp [accumulate]
  | cons c digits ih =>
    have hstep : n * 10 + digitValue c = 10 * n + (c.toNat - '0'.toNat) := by
      simp only [digitValue]
      omega
    rw [Nat.ofDigitChars_cons, ← hstep] at h
    have hfits : n * 10 + digitValue c < UInt64.size := by
      have := le_ofDigitChars digits (n * 10 + digitValue c)
      omega
    rw [accumulate, if_pos hfits, ih h, Nat.ofDigitChars_cons, hstep]

lemma accumulate_toDigits {n : Nat} (h : n < UInt64.size) :
    accumulate 0 (Nat.toDigits 10 n) = (n, []) := by
  rw [accumulate_eq (by rwa [Nat.ofDigitChars_ten_toDigits]), Nat.ofDigitChars_ten_toDigits]

/-! ## The grammar -/

/-- A number that has been read to here is at its end. -/
def EndsNumber (rest : List Char) : Prop :=
  ∀ c ∈ rest.head?, isDigit c = false ∧ c ≠ '.' ∧ c ≠ 'e' ∧ c ≠ 'E'

lemma endsNumber_nil : EndsNumber [] := by simp [EndsNumber]

lemma endsNumber_cons {c : Char} {rest : List Char}
    (h : isDigit c = false ∧ c ≠ '.' ∧ c ≠ 'e' ∧ c ≠ 'E') : EndsNumber (c :: rest) := by
  intro d hd
  cases hd
  exact h

lemma takeDigits_append {atEnd : Fault} {digits rest : List Char} (h : IsNumeral digits)
    (hrest : ∀ c ∈ rest.head?, isDigit c = false) :
    takeDigits atEnd (digits ++ rest) = .ok (digits, rest) := by
  have htake : rest.takeWhile isDigit = [] ∧ rest.dropWhile isDigit = rest := by
    cases rest with
    | nil => simp
    | cons c rest => simp [hrest c rfl]
  obtain ⟨hne, hall⟩ := h
  cases digits with
  | nil => exact absurd rfl hne
  | cons c digits =>
    rw [List.cons_append, takeDigits, if_pos (hall c (by simp)), ← List.cons_append,
      List.takeWhile_append_of_pos hall, List.dropWhile_append_of_pos hall, htake.1, htake.2,
      List.append_nil]

namespace Literal

/-- The characters of a fraction. -/
def fractionChars : Option (List Char) → List Char
  | none => []
  | some digits => '.' :: digits

/-- The characters of an exponent, which has a sign always. -/
def exponentChars : Option (Bool × List Char) → List Char
  | none => []
  | some (negative, digits) => 'e' :: (if negative then '-' else '+') :: digits

/-- The characters of a number. -/
def chars (literal : Literal) : List Char :=
  (if literal.negative then ['-'] else []) ++ (literal.whole ++
    (fractionChars literal.fraction ++ exponentChars literal.exponent))

/-- A number as the grammar has it. -/
structure Grammatical (literal : Literal) : Prop where
  whole : IsNumeral literal.whole
  /-- A leading zero stands alone. -/
  lead : ∀ c more, literal.whole ≠ '0' :: c :: more
  fraction : ∀ digits ∈ literal.fraction, IsNumeral digits
  exponent : ∀ exponent ∈ literal.exponent, IsNumeral exponent.2

end Literal

open Literal

lemma takeExponent_chars {atEnd : Fault} {exponent : Option (Bool × List Char)}
    {rest : List Char} (h : ∀ e ∈ exponent, IsNumeral e.2) (hrest : EndsNumber rest) :
    takeExponent atEnd (exponentChars exponent ++ rest) = .ok (exponent, rest) := by
  cases exponent with
  | none =>
    cases rest with
    | nil => rfl
    | cons c rest =>
      obtain ⟨-, -, he, hE⟩ := hrest c rfl
      simp [exponentChars, takeExponent, he, hE]
  | some e =>
    obtain ⟨negative, digits⟩ := e
    have hdigits : IsNumeral digits := h _ rfl
    have htake : takeDigits atEnd (digits ++ rest) = .ok (digits, rest) :=
      takeDigits_append hdigits fun c hc => (hrest c hc).1
    cases negative <;> simp [exponentChars, takeExponent, takeSign, htake, bind, Except.bind]

lemma takeFraction_chars {atEnd : Fault} {fraction : Option (List Char)} {rest : List Char}
    (h : ∀ digits ∈ fraction, IsNumeral digits)
    (hrest : ∀ c ∈ rest.head?, isDigit c = false ∧ c ≠ '.') :
    takeFraction atEnd (fractionChars fraction ++ rest) = .ok (fraction, rest) := by
  cases fraction with
  | none =>
    cases rest with
    | nil => rfl
    | cons c rest =>
      obtain ⟨-, hpoint⟩ := hrest c rfl
      simp [fractionChars, takeFraction, hpoint]
  | some digits =>
    have htake : takeDigits atEnd (digits ++ rest) = .ok (digits, rest) :=
      takeDigits_append (h _ rfl) fun c hc => (hrest c hc).1
    simp [fractionChars, takeFraction, htake, bind, Except.bind]

lemma takeWhole_append {atEnd : Fault} {digits rest : List Char} (h : IsNumeral digits)
    (hlead : ∀ c more, digits ≠ '0' :: c :: more)
    (hrest : ∀ c ∈ rest.head?, isDigit c = false) :
    takeWhole atEnd (digits ++ rest) = .ok (digits, rest) := by
  rw [takeWhole, takeDigits_append h hrest]
  simp only [bind, Except.bind]

/-- What may stand behind the digits before the point. -/
lemma head_exponentChars (exponent : Option (Bool × List Char)) {rest : List Char}
    (hrest : EndsNumber rest) :
    ∀ c ∈ (exponentChars exponent ++ rest).head?, isDigit c = false ∧ c ≠ '.' := by
  intro c hc
  cases exponent with
  | none => exact ⟨(hrest c hc).1, (hrest c hc).2.1⟩
  | some e =>
    cases hc
    decide

lemma head_fractionChars (fraction : Option (List Char)) {rest : List Char}
    (hrest : ∀ c ∈ rest.head?, isDigit c = false ∧ c ≠ '.') :
    ∀ c ∈ (fractionChars fraction ++ rest).head?, isDigit c = false := by
  intro c hc
  cases fraction with
  | none => exact (hrest c hc).1
  | some digits =>
    cases hc
    rfl

/-- **A number is taken back as it was spelled.** -/
theorem takeLiteral_chars {atEnd : Fault} {literal : Literal} {rest : List Char}
    (h : literal.Grammatical) (hrest : EndsNumber rest) :
    takeLiteral atEnd (literal.chars ++ rest) = .ok (literal, rest) := by
  obtain ⟨negative, whole, fraction, exponent⟩ := literal
  obtain ⟨hwhole, hlead, hfraction, hexponent⟩ := h
  dsimp only at hwhole hlead hfraction hexponent
  have hmarks := head_exponentChars exponent hrest
  have hexp : takeExponent atEnd (exponentChars exponent ++ rest) = .ok (exponent, rest) :=
    takeExponent_chars hexponent hrest
  have hfrac : takeFraction atEnd (fractionChars fraction ++ (exponentChars exponent ++ rest)) =
      .ok (fraction, exponentChars exponent ++ rest) := takeFraction_chars hfraction hmarks
  have htake : takeWhole atEnd
      (whole ++ (fractionChars fraction ++ (exponentChars exponent ++ rest))) =
      .ok (whole, fractionChars fraction ++ (exponentChars exponent ++ rest)) :=
    takeWhole_append hwhole hlead (head_fractionChars fraction hmarks)
  -- a number without a sign starts with a digit
  have hdigit : ∀ more, whole ++ (fractionChars fraction ++ (exponentChars exponent ++ rest)) ≠
      '-' :: more := by
    intro more hmore
    obtain ⟨c, digits, rfl⟩ := List.exists_cons_of_ne_nil hwhole.ne_nil
    have hc := hwhole.all_digits c (by simp)
    rw [List.cons_append, List.cons.injEq] at hmore
    rw [hmore.1] at hc
    exact absurd hc (by decide)
  cases negative with
  | false =>
    simp [takeLiteral, chars, htake, hfrac, hexp, bind, Except.bind]
  | true =>
    simp [takeLiteral, chars, htake, hfrac, hexp, bind, Except.bind]

/-- A spelled number is read as its value. -/
theorem readNumber_chars {literal : Literal} {rest : List Char} (h : literal.Grammatical)
    (hrest : EndsNumber rest) :
    readNumber (literal.chars ++ rest) = literal.value.map fun n => (n, rest) := by
  rw [readNumber, takeLiteral_chars h hrest]
  cases hvalue : literal.value <;> simp [hvalue, bind, Except.bind, Except.map]

/-! ## Whole numbers -/

/-- A whole number as it is written. -/
def Literal.ofInt (n : Int) : Literal := ⟨decide (n < 0), Nat.toDigits 10 n.natAbs, none, none⟩

lemma Literal.grammatical_ofInt (n : Int) : (Literal.ofInt n).Grammatical where
  whole := isNumeral_toDigits _
  lead := by
    intro c more
    simp only [Literal.ofInt]
    rcases Nat.eq_zero_or_pos n.natAbs with h | h
    · simp [h]
    · obtain ⟨d, rest, hd, hne⟩ := toDigits_head h
      rw [hd]
      simp [hne]
  fraction := by simp [Literal.ofInt]
  exponent := by simp [Literal.ofInt]

lemma writeInt_eq (n : Int) : writeInt n = (Literal.ofInt n).chars := by
  rw [writeInt, Int.toString_eq_repr, Int.repr_eq_if]
  rcases Int.lt_or_le n 0 with h | h
  · have hneg : ¬ 0 ≤ n := by omega
    have habs : (-n).toNat = n.natAbs := by omega
    simp [hneg, habs, Literal.ofInt, chars, fractionChars, exponentChars, h]
  · have hnot : ¬ n < 0 := by omega
    have habs : n.toNat = n.natAbs := by omega
    simp [h, habs, Literal.ofInt, chars, fractionChars, exponentChars, hnot]

/-- The number that a written whole number is read as. -/
def Number.ofInt (n : Int) : Number := if 0 ≤ n then .natural n.toNat else .negative n

lemma Literal.value_ofInt {n : Int} (hlow : -0x8000000000000000 ≤ n)
    (hhigh : n < 0x10000000000000000) : (Literal.ofInt n).value = .ok (Number.ofInt n) := by
  have hfits : n.natAbs < UInt64.size := by
    simp only [UInt64.size]
    omega
  simp only [Literal.value, Literal.ofInt, accumulate_toDigits hfits, Number.ofInt]
  rcases Int.lt_or_le n 0 with h | h
  · have hnot : ¬ (n.natAbs = 0 ∨ 0x8000000000000000 < n.natAbs) := by omega
    have hneg : ¬ 0 ≤ n := by omega
    have habs : -(n.natAbs : Int) = n := by omega
    simp only [h, decide_true, if_true, hnot, if_false, hneg, habs]
  · have hnot : ¬ n < 0 := by omega
    have habs : n.toNat = n.natAbs := by omega
    simp [hnot, h, habs]

/-- **Written whole numbers are read back.**  They are exact as far as sixty-four bits go. -/
theorem readNumber_writeInt {n : Int} {rest : List Char} (hlow : -0x8000000000000000 ≤ n)
    (hhigh : n < 0x10000000000000000) (hrest : EndsNumber rest) :
    readNumber (writeInt n ++ rest) = .ok (Number.ofInt n, rest) := by
  rw [writeInt_eq, readNumber_chars (Literal.grammatical_ofInt n) hrest,
    Literal.value_ofInt hlow hhigh]
  rfl

/-- A spelled number starts with its sign or a digit. -/
lemma Literal.Grammatical.head {literal : Literal} (h : literal.Grammatical) :
    ∃ c more, literal.chars = c :: more ∧ (c = '-' ∨ isDigit c = true) := by
  obtain ⟨negative, whole, fraction, exponent⟩ := literal
  obtain ⟨c, digits, rfl⟩ := List.exists_cons_of_ne_nil h.whole.ne_nil
  cases negative with
  | false => exact ⟨c, _, rfl, .inr (h.whole.all_digits c (by simp))⟩
  | true => exact ⟨'-', _, rfl, .inl rfl⟩

end Json

end PartitionKeys

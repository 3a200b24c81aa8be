/-
# The order of texts

Texts are ordered code point by code point.  Their UTF-8 forms are in the same order, byte by
byte: the first byte of a longer form is larger, and among the forms of one length the bytes
spell the code point, the most significant digits first.
-/
import PartitionKeys.Bytes
import PartitionKeys.Proofs.Comparison

namespace PartitionKeys

/-- The numbers of the characters of a text. -/
def codePoints (text : String) : List Nat := text.toList.map Char.toNat

namespace Bytes

/-- Rows are compared by their first bytes, as numbers, and after equal ones by what follows. -/
lemma compare_cons_eq_lt_iff {m n : Nat} (hm : m < 256) (hn : n < 256) (row other : Bytes) :
    compare (UInt8.ofNat m :: row) (UInt8.ofNat n :: other) = .lt ↔
      m < n ∨ m = n ∧ compare row other = .lt := by
  rw [List.compare_cons_cons, UInt8.compare_eq_toNat_compare_toNat, UInt8.toNat_ofNat_of_lt' hm,
    UInt8.toNat_ofNat_of_lt' hn, Ordering.then_eq_lt, Nat.compare_eq_lt, Nat.compare_eq_eq]

lemma utf8EncodeChar_ne_nil (c : Char) : String.utf8EncodeChar c ≠ [] := by
  refine List.ne_nil_of_length_pos ?_
  rw [String.length_utf8EncodeChar]
  exact c.utf8Size_pos

/-- The form of a larger code point is larger, whatever comes behind the two. -/
lemma compare_utf8EncodeChar_append {c d : Char} (h : c < d) (row other : Bytes) :
    compare (String.utf8EncodeChar c ++ row) (String.utf8EncodeChar d ++ other) = .lt := by
  have hlt : c.toNat < d.toNat := h
  have hd : d.toNat < 0x110000 := by
    have hvalid := d.valid
    simp only [UInt32.isValidChar, Nat.isValidChar] at hvalid
    show d.val.toNat < _
    omega
  have htwo (n : Nat) : n / 4096 = n / 64 / 64 := by omega
  have hthree (n : Nat) : n / 262144 = n / 64 / 64 / 64 := by omega
  simp only [String.utf8EncodeChar, Char.toNat_val]
  generalize c.toNat = m at hlt
  generalize d.toNat = n at hlt hd
  -- forms of different lengths differ in their first bytes, others where the numbers do
  split_ifs <;>
    simp (disch := omega) only [List.cons_append, compare_cons_eq_lt_iff, htwo, hthree]
  all_goals omega

lemma ofText_eq (text : String) : ofText text = text.toList.flatMap String.utf8EncodeChar := by
  unfold ofText
  rw [String.toUTF8_eq_toByteArray, ← String.utf8Encode_toList]
  exact List.toList_data_toByteArray

/-- Texts are compared as their UTF-8 forms. -/
theorem compare_ofText (a b : String) : compare (ofText a) (ofText b) = compare a b := by
  refine compare_image (fun {a b} h => ?_) a b
  have hlex : List.Lex (· < ·) a.toList b.toList := compareOfLessAndEq_eq_lt.1 h
  rw [ofText_eq, ofText_eq]
  exact compare_flatMap_of_lex utf8EncodeChar_ne_nil compare_utf8EncodeChar_append hlex

end Bytes

/-- Texts are compared code point by code point. -/
theorem compare_codePoints (a b : String) :
    compare (codePoints a) (codePoints b) = compare a b := by
  refine compare_image (fun {a b} h => ?_) a b
  have hlex : List.Lex (· < ·) a.toList b.toList := compareOfLessAndEq_eq_lt.1 h
  unfold codePoints
  rw [List.map_eq_flatMap, List.map_eq_flatMap]
  refine compare_flatMap_of_lex (fun _ => List.cons_ne_nil _ _) (fun {c d} hcd row other => ?_) hlex
  have hnumber : compare c.toNat d.toNat = .lt := Nat.compare_eq_lt.2 hcd
  rw [List.singleton_append, List.singleton_append, List.compare_cons_cons, hnumber,
    Ordering.lt_then]

end PartitionKeys

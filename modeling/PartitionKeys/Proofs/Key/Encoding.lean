/-
# The encoding of keys

The encoding of a part says by its tag of which kind the part is and, where the width varies, by
the length before the payload how far it goes.  So of bytes that begin with the encoding of a
part, the part can be told, and what follows it: whatever the payload imitates, it is passed over
as a whole.  Part by part, bytes that are the encoding of a key are that of no other key.

The length takes four bytes.  A payload for which they are too few loses the high bytes of its
length, and nothing is promised of it.
-/
import PartitionKeys.Key.Basic
import Mathlib.Tactic.Common

namespace PartitionKeys

namespace Bytes

lemma bigEndian_inj (width : Nat) {m n : Nat} (hm : m < Nat.pow 256 width)
    (hn : n < Nat.pow 256 width) (h : bigEndian width m = bigEndian width n) : m = n := by
  rw [← toNat_bigEndian hm, h, toNat_bigEndian hn]

/-- No two texts have the same bytes. -/
lemma ofText_inj {text other : String} (h : ofText text = ofText other) : text = other := by
  unfold ofText at h
  exact String.toByteArray_inj.1 (ByteArray.ext (Array.toList_inj.1 h))

end Bytes

namespace KeyPart

/-- The length of the payload fits into the bytes before it. -/
def Fits : KeyPart → Prop
  | .int _ => True
  | .text value => (Bytes.ofText value).length < UInt32.size
  | .bytes value => value.length < UInt32.size

instance : DecidablePred Fits
  | .int _ => inferInstanceAs (Decidable True)
  | .text value => inferInstanceAs (Decidable ((Bytes.ofText value).length < UInt32.size))
  | .bytes value => inferInstanceAs (Decidable (value.length < UInt32.size))

variable {part other : KeyPart} {payload payload' rest rest' : Bytes}

/-- The length before a payload tells where it ends. -/
lemma lengthPrefixed_append_inj (hfits : payload.length < UInt32.size)
    (hfits' : payload'.length < UInt32.size)
    (h : lengthPrefixed payload ++ rest = lengthPrefixed payload' ++ rest') :
    payload = payload' ∧ rest = rest' := by
  unfold lengthPrefixed at h
  rw [List.append_assoc, List.append_assoc] at h
  obtain ⟨hlength, h⟩ := List.append_inj h (by simp)
  exact List.append_inj h (Bytes.bigEndian_inj 4 hfits hfits' hlength)

/-- Of bytes that begin with the encoding of a part, the part can be told and what follows it. -/
lemma encode_append_inj (hfits : part.Fits) (hfits' : other.Fits)
    (h : part.encode ++ rest = other.encode ++ rest') : part = other ∧ rest = rest' := by
  cases part <;> cases other <;> simp only [encode, List.cons_append, List.cons.injEq] at h
  case int.int value value' =>
    obtain ⟨hbytes, hrest⟩ := List.append_inj h.2 (by simp)
    have hbits := Bytes.bigEndian_inj 8 value.toUInt64.toNat_lt
      value'.toUInt64.toNat_lt hbytes
    exact ⟨congrArg _ (Int64.toBitVec_inj.1 (congrArg UInt64.toBitVec (UInt64.toNat_inj.1 hbits))),
      hrest⟩
  case text.text =>
    obtain ⟨hpayload, hrest⟩ := lengthPrefixed_append_inj hfits hfits' h.2
    exact ⟨congrArg _ (Bytes.ofText_inj hpayload), hrest⟩
  case bytes.bytes =>
    obtain ⟨hpayload, hrest⟩ := lengthPrefixed_append_inj hfits hfits' h.2
    exact ⟨congrArg _ hpayload, hrest⟩
  -- the tags are different
  all_goals exact absurd h.1 (by decide)

/-- The encodings of parts are a prefix code. -/
lemma eq_of_encode_isPrefix (hfits : part.Fits) (hfits' : other.Fits)
    (h : part.encode <+: other.encode) : part = other := by
  obtain ⟨rest, h⟩ := h
  rw [← List.append_nil other.encode] at h
  exact (encode_append_inj hfits hfits' h).1

lemma encode_ne_nil (part : KeyPart) : part.encode ≠ [] := by
  cases part <;> simp [encode]

end KeyPart

namespace PrimaryKey

/-- The lengths of all payloads fit into the bytes before them. -/
def Fits (key : PrimaryKey) : Prop := ∀ part ∈ key.parts, part.Fits

instance : DecidablePred Fits :=
  fun key => inferInstanceAs (Decidable (∀ part ∈ key.parts, part.Fits))

/-- What begins with the encodings of some parts begins with these parts. -/
lemma parts_isPrefix {parts others : List KeyPart} (hfits : ∀ part ∈ parts, part.Fits)
    (hfits' : ∀ part ∈ others, part.Fits)
    (h : parts.flatMap KeyPart.encode <+: others.flatMap KeyPart.encode) : parts <+: others := by
  induction parts generalizing others with
  | nil => exact List.nil_prefix
  | cons part parts ih =>
    obtain ⟨hpart, hparts⟩ := List.forall_mem_cons.1 hfits
    rw [List.flatMap_cons] at h
    cases others with
    | nil => exact absurd (List.append_eq_nil_iff.1 (List.prefix_nil.1 h)).1 part.encode_ne_nil
    | cons other others =>
      obtain ⟨hother, hothers⟩ := List.forall_mem_cons.1 hfits'
      obtain ⟨rest, h⟩ := h
      rw [List.flatMap_cons, List.append_assoc] at h
      obtain ⟨rfl, hrest⟩ := KeyPart.encode_append_inj hpart hother h
      exact (List.prefix_cons_inj part).2 (ih hparts hothers ⟨rest, hrest⟩)

/-- **The encoding of keys is unambiguous.**  As long as the lengths of all payloads fit into the
bytes before them, the encodings of parts are a prefix code.  A key whose encoding begins that of
another one has parts that begin the parts of the other, and no two keys have one encoding. -/
theorem encoding_is_unambiguous :
    (∀ part other : KeyPart, part.Fits → other.Fits →
      part.encode <+: other.encode → part = other) ∧
    ∀ key other : PrimaryKey, key.Fits → other.Fits →
      (key.encode <+: other.encode → key.parts <+: other.parts) ∧
      (key.encode = other.encode → key = other) := by
  refine ⟨fun _ _ hfits hfits' h => KeyPart.eq_of_encode_isPrefix hfits hfits' h, ?_⟩
  intro key other hkey hother
  refine ⟨parts_isPrefix hkey hother, fun h => ?_⟩
  have hencode : key.encode <+: other.encode := ⟨[], by rw [h, List.append_nil]⟩
  have hback : other.encode <+: key.encode := ⟨[], by rw [h, List.append_nil]⟩
  rw [PrimaryKey.mk.injEq]
  have hparts := parts_isPrefix hkey hother hencode
  exact hparts.eq_of_length_le (parts_isPrefix hother hkey hback).length_le

end PrimaryKey

namespace Sample

/-- A key whose last part has bytes that look like an encoded number. -/
def posing : PrimaryKey := ⟨[.text "a", .bytes (KeyPart.encode (.int 5))]⟩

/-- A longer key. -/
def posingOn : PrimaryKey := ⟨posing.parts ++ [.int 5]⟩

/-- A key that has the number itself. -/
def plain : PrimaryKey := ⟨[.text "a", .int 5]⟩

end Sample

open Sample in
/-- Bytes that look like an encoded number are not taken for one. -/
theorem encoding_is_unambiguous_posing :
    (posing.Fits ∧ posingOn.Fits ∧ plain.Fits) ∧
    (posing.encode <+: posingOn.encode ∧ posing.parts <+: posingOn.parts) ∧
    posing.encode ≠ plain.encode ∧
    ¬(KeyPart.encode (.int 5) <+: KeyPart.encode (.bytes (KeyPart.encode (.int 5)))) := by
  obtain ⟨hparts, hkeys⟩ := PrimaryKey.encoding_is_unambiguous
  have hposing : posing.Fits := by decide +kernel
  have hon : posingOn.Fits := by decide +kernel
  have hplain : plain.Fits := by decide +kernel
  have hbegins : posing.encode <+: posingOn.encode := by decide +kernel
  refine ⟨⟨hposing, hon, hplain⟩, ⟨hbegins, (hkeys _ _ hposing hon).1 hbegins⟩, ?_, ?_⟩
  · intro h
    exact absurd ((hkeys _ _ hposing hplain).2 h) (by decide)
  · intro h
    exact absurd (hparts _ _ (by decide) (by decide) h) (by decide)

end PartitionKeys

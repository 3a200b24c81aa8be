/-
# Bytes: big-endian numbers and hexadecimal text

Numbers go to bytes most significant first, in a fixed width; a number that needs more
bytes than the width loses its high ones.  Bytes are shown as two lower case digits each.
-/

namespace PartitionKeys

/-- A sequence of bytes. -/
abbrev Bytes := List UInt8

namespace Bytes

/-- The low `width` bytes of a number, most significant first. -/
def bigEndian : Nat → Nat → Bytes
  | 0, _ => []
  | width + 1, n => bigEndian width (n / 256) ++ [UInt8.ofNat (n % 256)]

/-- The number that bytes spell, most significant first. -/
def toNat (bytes : Bytes) : Nat := bytes.foldl (fun n byte => n * 256 + byte.toNat) 0

@[simp] theorem length_bigEndian (width n : Nat) : (bigEndian width n).length = width := by
  induction width generalizing n with
  | zero => rfl
  | succ width ih => rw [bigEndian, List.length_append, ih, List.length_singleton]

theorem toNat_concat (bytes : Bytes) (byte : UInt8) :
    toNat (bytes ++ [byte]) = toNat bytes * 256 + byte.toNat := by
  simp only [toNat, List.foldl_append, List.foldl_cons, List.foldl_nil]

/-- A number that fits into the width is spelled in full. -/
theorem toNat_bigEndian {width n : Nat} (h : n < Nat.pow 256 width) :
    toNat (bigEndian width n) = n := by
  induction width generalizing n with
  | zero =>
    have hn : n < 1 := h
    show 0 = n
    omega
  | succ width ih =>
    have hn : n < Nat.pow 256 width * 256 := h
    have hbyte : (UInt8.ofNat (n % 256)).toNat = n % 256 := by simp
    rw [bigEndian, toNat_concat, hbyte, ih (by omega)]
    omega

/-- The bytes of a text in its UTF-8 form. -/
def ofText (text : String) : Bytes := text.toUTF8.data.toList

/-- One hexadecimal digit of a number below sixteen. -/
def hexDigit (n : Nat) : Char :=
  if n < 10 then Char.ofNat ('0'.toNat + n) else Char.ofNat ('a'.toNat + (n - 10))

/-- Two hexadecimal digits for each byte. -/
def hex (bytes : Bytes) : String :=
  String.ofList (bytes.flatMap fun byte => [hexDigit (byte.toNat / 16), hexDigit (byte.toNat % 16)])

end Bytes

end PartitionKeys

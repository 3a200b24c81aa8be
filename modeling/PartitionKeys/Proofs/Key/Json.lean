/-
# Keys survive JSON

The parts of a key have no tags in JSON, so that a reader has to tell them apart by their form.
A written number starts with its sign or a digit, a text with a quote and bytes with a bracket;
every number of sixty-four bits is small enough for a number, and every byte for a byte.  So
each part is read back as a part of its own kind, and the text of a key determines the key.
-/
import PartitionKeys.Key.Json
import PartitionKeys.Proofs.Json.Values

namespace PartitionKeys

open Json

namespace KeyPart

lemma byte?_ofInt (byte : UInt8) : byte? (.number (Number.ofInt byte.toNat)) = some byte := by
  have hbyte : (byte.toNat : Int) ≤ 255 := by
    have := byte.toNat_lt
    omega
  rw [byte?, integer_ofInt (by omega) hbyte]
  simp

/-- Bytes are taken from the numbers that they are written as. -/
lemma ofContent?_bytes (bytes : Bytes) :
    ofContent? (.array (bytes.map fun byte => .number (Number.ofInt byte.toNat))) =
      some (.bytes bytes) := by
  have hbytes : (bytes.map fun byte => Content.number (Number.ofInt byte.toNat)).mapM byte? =
      some bytes := by
    induction bytes with
    | nil => rfl
    | cons byte bytes ih => rw [List.map_cons, List.mapM_cons, byte?_ofInt, ih]; rfl
  rw [ofContent?, hbytes]
  rfl

lemma ofContent?_int (value : Int64) :
    ofContent? (.number (Number.ofInt value.toInt)) = some (.int value) := by
  have hread : (Content.number (Number.ofInt value.toInt)).int64 = .ok value := by
    rw [Content.int64, integer_ofInt value.minValue_le_toInt value.toInt_le]
    simp [Except.map]
  simp [ofContent?, hread]

lemma startsValue_write (part : KeyPart) : StartsValue part.write := by
  cases part with
  | int value => exact startsValue_writeInt _
  | text value => exact startsValue_writeText _
  | bytes value => exact startsValue_writeArray _

/-- **Parts are read back as parts of their own kind**, wherever one more array may be open. -/
theorem readsBack_write {depth : Nat} (h : depth < nestingLimit) (part : KeyPart) :
    ReadsBack (readNested depth) part.write part := by
  intro rest hrest
  obtain ⟨room, hroom⟩ : ∃ room, nestingLimit - depth = room + 1 :=
    ⟨nestingLimit - depth - 1, by omega⟩
  cases part with
  | int value =>
    have hlow := value.le_toInt
    have hhigh := value.toInt_lt
    have hread := readsBack_content_writeInt (n := value.toInt) (nestingLimit - depth) (by omega)
      (by omega) rest hrest
    simp only [readNested, write, hread, ofContent?_int, bind, Except.bind]
  | text value =>
    have hread := readsBack_content_writeText (nestingLimit - depth) value rest hrest
    simp only [readNested, write, hread, ofContent?, bind, Except.bind]
  | bytes value =>
    have helement : ∀ byte ∈ value, ReadsBack (readContent room) (writeInt byte.toNat)
        (.number (Number.ofInt byte.toNat)) := by
      intro byte _
      have := byte.toNat_lt
      exact readsBack_content_writeInt room (by omega) (by omega)
    have hread := readsBack_content_writeArray value helement
      (fun byte _ => startsValue_writeInt byte.toNat) rest hrest
    simp only [readNested, write, hroom, hread, ofContent?_bytes, bind, Except.bind]

end KeyPart

namespace PrimaryKey

lemma readsBack_write (key : PrimaryKey) : ReadsBack read key.write key := by
  intro rest hrest
  have hparts := readsBack_writeArray key.parts
    (fun part _ => KeyPart.readsBack_write (show 1 < nestingLimit by decide) part)
    (fun part _ => part.startsValue_write) rest hrest
  simp only [read, write, hparts, bind, Except.bind, List.map_id']

/-- **Keys survive JSON.**  Whatever parts a key has, its JSON text is read as that key; so no
other key has the same text. -/
theorem keys_survive_json (key : PrimaryKey) :
    readWhole read (String.ofList key.write) = .ok key ∧
      ∀ other : PrimaryKey, other.write = key.write → other = key := by
  refine ⟨key.readsBack_write.readWhole, ?_⟩
  intro other hother
  have hkey := key.readsBack_write.readWhole
  rw [← hother, other.readsBack_write.readWhole] at hkey
  exact Except.ok.inj hkey

end PrimaryKey

end PartitionKeys

/-
# Keys in ascending order

An index in the order of its keys finds its way by comparing keys.  This does only because the
order of keys is linear and tells any two keys apart: then the keys ascend strictly after any
calls, and a search that stops at the first key above finds the entry of a key exactly if there
is one.
-/
import PartitionKeys.Proofs.Index.Agreement
import PartitionKeys.Proofs.Key.Texts

namespace PartitionKeys

namespace SortedIndex

/-- Looks for a key in the order of the keys, up to the first key that is above. -/
def seek (key : IndexKey) : Assoc IndexKey Entry → Option Entry
  | [] => none
  | (other, entry) :: rest =>
    match compare key other with
    | .lt => none
    | .eq => some entry
    | .gt => seek key rest

/-- In ascending entries, a search in order answers what is there. -/
lemma seek_eq_lookup {m : Assoc IndexKey Entry}
    (h : m.keys.Pairwise fun a b => compare a b = .lt) (key : IndexKey) :
    seek key m = m.lookup key := by
  induction m with
  | nil => rfl
  | cons held rest ih =>
    obtain ⟨other, entry⟩ := held
    obtain ⟨hother, hrest⟩ := List.pairwise_cons.1 h
    unfold seek
    split
    · next hlt =>
      -- all the following keys are above as well
      have habove : ∀ above ∈ Assoc.keys ((other, entry) :: rest), compare key above = .lt := by
        intro above hmem
        rcases List.mem_cons.1 hmem with rfl | hmem
        · exact hlt
        · exact Std.TransCmp.lt_trans hlt (hother above hmem)
      have hnot : key ∉ Assoc.keys ((other, entry) :: rest) := fun hmem => by
        simpa using habove key hmem
      exact (Assoc.lookup_eq_none_iff.2 hnot).symm
    · next heq =>
      obtain rfl := Std.LawfulEqOrd.eq_of_compare heq
      exact List.lookup_cons_self.symm
    · next hgt =>
      have hne : key ≠ other := by
        rintro rfl
        simp at hgt
      rw [Assoc.lookup_cons_of_ne hne, ih hrest]

end SortedIndex

namespace Backend

/-- An index in the order of its keys, all of them ascending. -/
inductive Ascends : Backend → Prop
  | sorted {i : SortedIndex} (h : i.WellFormed) : Ascends (.sorted i)

/-- No call takes the order away. -/
lemma Ascends.answer {b : Backend} (h : b.Ascends) (call : IndexCall) :
    (b.answer call).2.Ascends := by
  obtain ⟨h⟩ := h
  cases call with
  | apply key proposed t | addOrUpdate key proposed t => exact .sorted (h.apply key proposed t)
  | restore key written previous => exact .sorted (h.restore key written previous)
  | remove key expected => exact .sorted (h.remove key expected)
  | sweep floor => exact .sorted (h.sweep floor)
  | get | size | isEmpty => exact .sorted h
  | close => exact .sorted h

lemma Ascends.run {b : Backend} (h : b.Ascends) (calls : List IndexCall) :
    (b.run calls).2.Ascends := by
  induction calls generalizing b with
  | nil => exact h
  | cons call rest ih => exact ih (h.answer call)

/-- **Keys are strictly ordered.**  The order of the keys of an index, whole ones and digests, is
linear, where texts count alike by their UTF-8 forms and by their code points.  So after any calls
on an empty index in the order of its keys, the keys ascend strictly, they are those under which
there is an entry, and a search in their order finds it. -/
theorem keys_are_strictly_ordered :
    IsLinear (compare : IndexKey → IndexKey → Ordering) ∧
    (∀ a b : String,
      compare (KeyPart.text a) (.text b) = compare (Bytes.ofText a) (Bytes.ofText b) ∧
      compare (KeyPart.text a) (.text b) = compare (codePoints a) (codePoints b)) ∧
    ∀ calls : List IndexCall, ∃ i : SortedIndex,
      ((Backend.sorted {}).run calls).2 = .sorted i ∧
      (i.keys.Pairwise fun a b => compare a b = .lt) ∧
      ∀ key, (key ∈ i.keys ↔ ∃ entry, i.get? key = some entry) ∧
        SortedIndex.seek key i.entries = i.get? key := by
  refine ⟨isLinear_of_lawful _, fun a b => ?_, fun calls => ?_⟩
  · exact ⟨(Bytes.compare_ofText a b).symm, (compare_codePoints a b).symm⟩
  · have hempty : (Backend.sorted {}).Ascends := .sorted List.Pairwise.nil
    have hafter := hempty.run calls
    generalize ((Backend.sorted {}).run calls).2 = b at hafter
    obtain ⟨hascending⟩ := hafter
    refine ⟨_, rfl, hascending, fun key => ⟨?_, SortedIndex.seek_eq_lookup hascending key⟩⟩
    rw [← Option.isSome_iff_exists]
    exact Assoc.mem_keys_iff

end Backend

end PartitionKeys

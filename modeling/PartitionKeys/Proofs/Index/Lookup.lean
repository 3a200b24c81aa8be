/-
# What the calls of an index do to its entries

The entries of an index are read through `get?`, as a function of the key.  Each call changes
this function at one key at most, and in the same way for both ways to hold entries: an offer
that is accepted writes the key, a roll-back or a removal that finds the expected location
changes it, and every other call leaves all keys alone.  Later proofs use these equations and
never look at the lists behind them.
-/
import PartitionKeys.Index.Basic
import PartitionKeys.Proofs.Key.Order
import PartitionKeys.Proofs.Version.Join
import Mathlib.Logic.Function.Basic

namespace PartitionKeys

namespace Location

lemma same_iff {l m : Location} : l.same m = true ↔ l.doc = m.doc ∧ l.isIn m.segment = true := by
  simp [same]

@[simp] lemma isIn_segment (l : Location) : l.isIn l.segment = true := by
  simp [isIn, SegmentId.same]

@[simp] lemma same_self (l : Location) : l.same l = true := by
  simp [same_iff]

/-- Locations that are the same document are in the same segments. -/
lemma isIn_of_same {l m : Location} (h : l.same m = true) (s : SegmentId) :
    l.isIn s = m.isIn s := by
  have hseg := (same_iff.1 h).2
  simp only [isIn, SegmentId.same, beq_iff_eq] at hseg ⊢
  rw [hseg]

end Location

/-! ## What an offer comes to -/

/-- The ways in which an offer is resolved. -/
inductive Resolved (present : Option Entry) (proposed : Entry) (t : Terms) : Resolution → Prop
  /-- The key is free, or its entry is stale. -/
  | inserted (free : ∀ held, present = some held → t.isStale held = true) :
    Resolved present proposed t (.insert proposed)
  /-- What the replaced segment owns yields. -/
  | tookOver (held : Entry) (hpresent : present = some held) (live : t.isStale held = false)
    (owned : t.ownedByReplaced held = true) : Resolved present proposed t (.supersede proposed)
  /-- The present record stays. -/
  | kept (held : Entry) (hpresent : present = some held) (live : t.isStale held = false)
    (owned : t.ownedByReplaced held = false) : Resolved present proposed t .reject
  /-- The proposed version wins. -/
  | won (held : Entry) (version : Version) (hpresent : present = some held)
    (live : t.isStale held = false) (owned : t.ownedByReplaced held = false)
    (hkind : t.kind = .upsert)
    (hdecide : t.rule.decide proposed.version held.version t.comparisonColumns =
      .ok (.supersede version)) :
    Resolved present proposed t (.supersede (.of proposed.location version t.timeColumn))

lemma resolve_resolved {present : Option Entry} {proposed : Entry} {t : Terms} {r : Resolution}
    (h : resolve present proposed t = .ok r) : Resolved present proposed t r := by
  unfold resolve at h
  split at h
  · cases h
    exact .inserted nofun
  next held =>
  split at h
  · next hstale =>
    cases h
    exact .inserted fun _ heq => Option.some.inj heq ▸ hstale
  next hlive =>
  rw [Bool.not_eq_true] at hlive
  unfold resolvePresent at h
  split at h
  · next howned =>
    cases h
    exact .tookOver held rfl hlive howned
  next howned =>
  rw [Bool.not_eq_true] at howned
  split at h
  · cases h
    exact .kept held rfl hlive howned
  next hkind =>
  obtain ⟨decision, hdecide, h⟩ := bind_eq_ok h
  split at h
  · cases h
    exact .kept held rfl hlive howned
  next version =>
  cases h
  exact .won held version rfl hlive howned hkind hdecide

/-- A resolution never moves the record that is offered. -/
lemma resolve_location {present : Option Entry} {proposed entry : Entry} {t : Terms}
    {r : Resolution} (h : resolve present proposed t = .ok r) (hr : r.entry? = some entry) :
    entry.location = proposed.location := by
  cases resolve_resolved h with
  | inserted | tookOver | won =>
    cases hr
    rfl
  | kept => cases hr

/-- What an index answers to the offer of an entry for a key, and what its entries are
afterwards. -/
inductive Offered (before : IndexKey → Option Entry) (key : IndexKey) (proposed : Entry)
    (t : Terms) : Except IndexError Update → (IndexKey → Option Entry) → Prop
  | refused (e : IndexError) : Offered before key proposed t (.error e) before
  | rejected (h : resolve (before key) proposed t = .ok .reject) :
    Offered before key proposed t (.ok ⟨.rejected, none⟩) before
  | written (r : Resolution) (entry : Entry) (h : resolve (before key) proposed t = .ok r)
    (hr : r.entry? = some entry) :
    Offered before key proposed t (.ok ⟨r.outcome, before key⟩)
      (Function.update before key (some entry))

lemma Resolution.eq_reject {r : Resolution} (h : r.entry? = none) : r = .reject := by
  cases r <;> simp_all [Resolution.entry?]

/-! ## Entries in the order of their keys -/

namespace SortedIndex

lemma lookup_place_self (key : IndexKey) (entry : Entry) (m : Assoc IndexKey Entry) :
    (place key entry m).lookup key = some entry := by
  induction m with
  | nil => exact List.lookup_cons_self
  | cons held rest ih =>
    obtain ⟨other, old⟩ := held
    unfold place
    split
    · exact List.lookup_cons_self
    · exact List.lookup_cons_self
    · next h =>
      have hne : key ≠ other := by
        rintro rfl
        rw [Std.ReflOrd.compare_self] at h
        cases h
      rw [Assoc.lookup_cons_of_ne hne, ih]

lemma lookup_place_of_ne {key other : IndexKey} (h : other ≠ key) (entry : Entry)
    (m : Assoc IndexKey Entry) : (place key entry m).lookup other = m.lookup other := by
  induction m with
  | nil => exact Assoc.lookup_cons_of_ne h entry []
  | cons held rest ih =>
    obtain ⟨place, old⟩ := held
    unfold SortedIndex.place
    split
    · exact Assoc.lookup_cons_of_ne h entry _
    · next heq =>
      rw [← Std.LawfulEqOrd.eq_of_compare heq, Assoc.lookup_cons_of_ne h,
        Assoc.lookup_cons_of_ne h]
    · rw [List.lookup_cons, List.lookup_cons, ih]

lemma get?_set (i : SortedIndex) (key : IndexKey) (entry : Entry) :
    (i.set key entry).get? = Function.update i.get? key (some entry) := by
  funext other
  by_cases h : other = key
  · subst h
    rw [Function.update_self]
    exact lookup_place_self other entry i.entries
  · rw [Function.update_of_ne h]
    exact lookup_place_of_ne h entry i.entries

lemma get?_erase (i : SortedIndex) (key : IndexKey) :
    (i.erase key).get? = Function.update i.get? key none := by
  funext other
  by_cases h : other = key
  · subst h
    rw [Function.update_self, get?_erase_self]
  · rw [Function.update_of_ne h, get?_erase_of_ne h]

lemma apply_offered (i : SortedIndex) (key : IndexKey) (proposed : Entry) (t : Terms) :
    Offered i.get? key proposed t (i.apply key proposed t).1 (i.apply key proposed t).2.get? := by
  unfold apply
  split
  · exact .refused _
  split
  · exact .refused _
  next r hr =>
  cases he : r.entry? with
  | some entry =>
    rw [get?_set]
    exact .written r entry hr he
  | none =>
    rw [Resolution.eq_reject he] at hr
    exact .rejected hr

lemma restore_fst (i : SortedIndex) (key : IndexKey) (written : Location)
    (previous : Option Entry) :
    (i.restore key written previous).1 = (i.get? key).any fun e => e.location.same written := by
  unfold restore
  split
  · next h => exact h.symm
  · next h =>
    rw [Bool.not_eq_false] at h
    rw [h]
    cases previous <;> rfl

lemma get?_restore (i : SortedIndex) (key : IndexKey) (written : Location)
    (previous : Option Entry) :
    (i.restore key written previous).2.get? =
      if (i.get? key).any fun e => e.location.same written then
        Function.update i.get? key previous
      else i.get? := by
  unfold restore
  split
  · next h => rw [h]; rfl
  · next h =>
    rw [Bool.not_eq_false] at h
    rw [h]
    cases previous with
    | some entry => exact get?_set i key entry
    | none => exact get?_erase i key

lemma remove_fst (i : SortedIndex) (key : IndexKey) (expected : Location) :
    (i.remove key expected).1 = (i.get? key).any fun e => e.location.same expected := by
  unfold remove
  cases i.get? key with
  | none => rfl
  | some entry => cases h : entry.location.same expected <;> simp [h]

lemma get?_remove (i : SortedIndex) (key : IndexKey) (expected : Location) :
    (i.remove key expected).2.get? =
      if (i.get? key).any fun e => e.location.same expected then
        Function.update i.get? key none
      else i.get? := by
  unfold remove
  cases i.get? key with
  | none => rfl
  | some entry => cases h : entry.location.same expected <;> simp [h, get?_erase]

end SortedIndex

/-! ## Entries in no particular order -/

namespace UnorderedIndex

lemma get?_fill (i : UnorderedIndex) (key : IndexKey) (entry : Entry) :
    (i.fill key entry).get? = Function.update i.get? key (some entry) := by
  funext other
  by_cases h : other = key
  · subst h
    rw [Function.update_self, get?_fill_self]
  · rw [Function.update_of_ne h, get?_fill_of_ne h]

lemma get?_exchange {i : UnorderedIndex} {key : IndexKey} (h : (i.get? key).isSome)
    (entry : Entry) : (i.exchange key entry).get? = Function.update i.get? key (some entry) := by
  funext other
  by_cases hk : other = key
  · subst hk
    rw [Function.update_self, get?_exchange_self h]
  · rw [Function.update_of_ne hk, get?_exchange_of_ne hk]

lemma get?_vacate (i : UnorderedIndex) (key : IndexKey) :
    (i.vacate key).get? = Function.update i.get? key none := by
  funext other
  by_cases h : other = key
  · subst h
    rw [Function.update_self, get?_vacate_self]
  · rw [Function.update_of_ne h, get?_vacate_of_ne h]

lemma apply_offered (i : UnorderedIndex) (key : IndexKey) (proposed : Entry) (t : Terms) :
    Offered i.get? key proposed t (i.apply key proposed t).1 (i.apply key proposed t).2.get? := by
  unfold apply
  split
  · exact .refused _
  cases hget : i.get? key with
  | none =>
    have hresolve : resolve (i.get? key) proposed t = .ok (.insert proposed) := by rw [hget]; rfl
    have hoffered := Offered.written _ proposed hresolve rfl
    rw [hget, ← get?_fill] at hoffered
    exact hoffered
  | some present =>
    have hsome : (i.get? key).isSome := by rw [hget]; rfl
    dsimp only
    rcases hr : resolve (some present) proposed t with e | r
    · exact .refused _
    have hresolve : resolve (i.get? key) proposed t = .ok r := by rw [hget, hr]
    cases r with
    | reject => exact .rejected hresolve
    | insert entry | supersede entry =>
      have hoffered := Offered.written _ entry hresolve rfl
      rw [hget, ← get?_exchange hsome] at hoffered
      exact hoffered

lemma restore_fst (i : UnorderedIndex) (key : IndexKey) (written : Location)
    (previous : Option Entry) :
    (i.restore key written previous).1 = (i.get? key).any fun e => e.location.same written := by
  unfold restore
  cases i.get? key with
  | none => rfl
  | some present => cases h : present.location.same written <;> cases previous <;> simp [h]

lemma get?_restore (i : UnorderedIndex) (key : IndexKey) (written : Location)
    (previous : Option Entry) :
    (i.restore key written previous).2.get? =
      if (i.get? key).any fun e => e.location.same written then
        Function.update i.get? key previous
      else i.get? := by
  unfold restore
  cases hget : i.get? key with
  | none => rfl
  | some present =>
    have hsome : (i.get? key).isSome := by rw [hget]; rfl
    cases h : present.location.same written <;> cases previous <;>
      simp [h, get?_exchange hsome, get?_vacate]

lemma remove_fst (i : UnorderedIndex) (key : IndexKey) (expected : Location) :
    (i.remove key expected).1 = (i.get? key).any fun e => e.location.same expected := by
  unfold remove
  split
  · next h => rw [h]
  · next h => rw [Bool.not_eq_true] at h; rw [h]

lemma get?_remove (i : UnorderedIndex) (key : IndexKey) (expected : Location) :
    (i.remove key expected).2.get? =
      if (i.get? key).any fun e => e.location.same expected then
        Function.update i.get? key none
      else i.get? := by
  unfold remove
  split
  · exact get?_vacate i key
  · rfl

end UnorderedIndex

/-! ## Any index -/

namespace KeyIndex

/-- Whether a key points at a location. -/
def pointsAt (i : KeyIndex) (key : IndexKey) (l : Location) : Bool :=
  (i.get? key).any fun e => e.location.same l

lemma pointsAt_iff {i : KeyIndex} {key : IndexKey} {l : Location} :
    i.pointsAt key l = true ↔ ∃ e, i.get? key = some e ∧ e.location.same l = true := by
  unfold pointsAt
  cases i.get? key <;> simp

lemma apply_offered (i : KeyIndex) (key : IndexKey) (proposed : Entry) (t : Terms) :
    Offered i.get? key proposed t (i.apply key proposed t).1 (i.apply key proposed t).2.get? := by
  unfold apply
  dsimp only
  split
  · exact .refused _
  obtain ⟨backend, _, _, _, _⟩ := i
  cases backend with
  | sorted i => exact i.apply_offered key proposed t
  | unordered i => exact i.apply_offered key proposed t

lemma restore_fst (i : KeyIndex) (key : IndexKey) (written : Location)
    (previous : Option Entry) :
    (i.restore key written previous).1 = i.pointsAt key written := by
  obtain ⟨backend, _, _, _, _⟩ := i
  cases backend with
  | sorted i => exact i.restore_fst key written previous
  | unordered i => exact i.restore_fst key written previous

lemma get?_restore (i : KeyIndex) (key : IndexKey) (written : Location)
    (previous : Option Entry) :
    (i.restore key written previous).2.get? =
      if i.pointsAt key written then Function.update i.get? key previous else i.get? := by
  obtain ⟨backend, _, _, _, _⟩ := i
  cases backend with
  | sorted i => exact i.get?_restore key written previous
  | unordered i => exact i.get?_restore key written previous

lemma remove_fst (i : KeyIndex) (key : IndexKey) (expected : Location) :
    (i.remove key expected).1 = i.pointsAt key expected := by
  obtain ⟨backend, _, _, _, _⟩ := i
  cases backend with
  | sorted i => exact i.remove_fst key expected
  | unordered i => exact i.remove_fst key expected

lemma get?_remove (i : KeyIndex) (key : IndexKey) (expected : Location) :
    (i.remove key expected).2.get? =
      if i.pointsAt key expected then Function.update i.get? key none else i.get? := by
  obtain ⟨backend, _, _, _, _⟩ := i
  cases backend with
  | sorted i => exact i.get?_remove key expected
  | unordered i => exact i.get?_remove key expected

end KeyIndex

end PartitionKeys

/-
# Which keys a replacement keeps

A replacement offers the records of the new segment, and then drops the keys of the old one
that are still where the old segment had them.  A pass leaves each key in one of two ways,
`Settled`: all its records were turned away and the key has the entry from before, or the key
points at a record of the new segment.  So the second step finds nothing of a key of the new
segment, unless both segments are the same instance: then what the pass has just written is
where the old segment had it, and the second step takes it away again.
-/
import PartitionKeys.Proofs.Partition.Ownership

namespace PartitionKeys

/-- What the replaced segment owns is never the reason to turn a record away. -/
lemma not_owned_of_reject {present : Option Entry} {proposed : Entry} {t : Terms}
    (h : resolve present proposed t = .ok .reject) :
    ∃ entry, present = some entry ∧ t.ownedByReplaced entry = false := by
  cases resolve_resolved h with
  | kept held hpresent live owned => exact ⟨held, hpresent, owned⟩

namespace Offering

/-- Whether the records of a key are all turned away by the entry that the key has. -/
def TurnedAway (o : Offering) (records : List Record) (entries : IndexKey → Option Entry)
    (key : IndexKey) : Prop :=
  ∀ record ∈ records, o.key record = key →
    resolve (entries key) (o.entry record).2 o.terms = .ok .reject

/-- The last record of a key. -/
def last? (o : Offering) (records : List Record) (key : IndexKey) : Option Record :=
  (records.filter fun record => o.key record == key).getLast?

variable {o : Offering} {record : Record} {rest : List Record} {key : IndexKey}

lemma last?_cons_of_some {last : Record} (h : o.last? rest key = some last) :
    o.last? (record :: rest) key = some last := by
  unfold last? at h ⊢
  rw [List.filter_cons]
  split
  · rw [List.getLast?_cons, h]
    rfl
  · exact h

lemma last?_cons_self (hkey : o.key record = key) (h : ∀ other ∈ rest, o.key other ≠ key) :
    o.last? (record :: rest) key = some record := by
  have hnone : rest.filter (fun other => o.key other == key) = [] := by
    refine List.filter_eq_nil_iff.2 fun other hmem => ?_
    simpa using h other hmem
  simp [last?, hkey, hnone]

/-- What a pass that was accepted has made of a key: the records of the key were turned away
and its entry is as before, or the key points at one of them.  If the pass may overwrite its
own segment, that is the last one. -/
inductive Settled (o : Offering) (records : List Record) (before after : IndexKey → Option Entry)
    (key : IndexKey) : Prop
  | kept (away : o.TurnedAway records before key) (same : after key = before key)
  | written (record : Record) (entry : Entry) (mem : record ∈ records) (hkey : o.key record = key)
    (held : after key = some entry) (location : entry.location = o.location record)
    (notAway : ¬ o.TurnedAway records before key)
    (last : (∀ e : Entry, e.location.isIn o.segment = true → o.terms.ownedByReplaced e = true) →
      o.last? records key = some record)

lemma TurnedAway.cons {entries : IndexKey → Option Entry}
    (hrecord : o.key record = key →
      resolve (entries key) (o.entry record).2 o.terms = .ok .reject)
    (h : o.TurnedAway rest entries key) : o.TurnedAway (record :: rest) entries key := by
  intro other hmem hkey
  rcases List.mem_cons.1 hmem with rfl | hmem
  · exact hrecord hkey
  · exact h other hmem hkey

lemma TurnedAway.of_cons {before after : IndexKey → Option Entry} (hsame : after key = before key)
    (h : o.TurnedAway (record :: rest) before key) : o.TurnedAway rest after key := by
  intro other hmem hkey
  rw [hsame]
  exact h other (List.mem_cons_of_mem record hmem) hkey

/-- What the records after the first one have made of a key, the first one has left to them. -/
lemma Settled.cons {before middle after : IndexKey → Option Entry}
    (hsame : middle key = before key)
    (hrecord : o.key record = key →
      resolve (before key) (o.entry record).2 o.terms = .ok .reject)
    (h : Settled o rest middle after key) : Settled o (record :: rest) before after key := by
  cases h with
  | kept away same =>
    refine .kept (TurnedAway.cons hrecord ?_) (same.trans hsame)
    intro other hmem hkey
    rw [← hsame]
    exact away other hmem hkey
  | written other entry mem hkey held location notAway last =>
    exact .written other entry (List.mem_cons_of_mem record mem) hkey held location
      (fun haway => notAway (haway.of_cons hsame)) fun howns => last?_cons_of_some (last howns)

end Offering

namespace Pass

/-- A pass that was accepted has settled every key. -/
lemma run_settled (o : Offering) (records : List Record) (pass : Pass) (key : IndexKey)
    (accepted : (run o records pass).1 = none) :
    o.Settled records pass.index.get? (run o records pass).2.index.get? key := by
  refine run_induction o (motive := fun records pass result => result.1 = none →
    o.Settled records pass.index.get? result.2.index.get? key) ?_ ?_ ?_ records pass accepted
  · intro pass _
    exact .kept (fun record hmem => absurd hmem List.not_mem_nil) rfl
  · intro record rest pass e next _ haccepted
    cases haccepted
  · intro record rest pass next htook ih haccepted
    have hrest := ih haccepted
    cases htook with
    | rejected _ resolution entries =>
      refine hrest.cons (congrFun entries key) ?_
      rintro rfl
      exact resolution
    | written _ r entry resolution held entries =>
      by_cases hkey : o.key record = key
      case neg =>
        -- this record has written another key
        refine hrest.cons ?_ fun h => absurd h hkey
        rw [entries, Function.update_of_ne (Ne.symm hkey)]
      case pos =>
        subst hkey
        have hnext : next.index.get? (o.key record) = some entry := by
          rw [entries, Function.update_self]
        have hlocation : entry.location = o.location record := resolve_location resolution held
        have hnot : ¬ o.TurnedAway (record :: rest) pass.index.get? (o.key record) := by
          intro haway
          rw [haway record List.mem_cons_self rfl] at resolution
          cases resolution
          cases held
        cases hrest with
        | kept away same =>
          refine .written record entry List.mem_cons_self rfl (same.trans hnext) hlocation hnot ?_
          intro howns
          -- a further record of the key would have overwritten the entry of this one
          refine Offering.last?_cons_self rfl fun other hmem hother => ?_
          obtain ⟨present, hpresent, hfree⟩ := not_owned_of_reject (away other hmem hother)
          rw [hnext] at hpresent
          cases hpresent
          rw [howns entry (by rw [hlocation]; exact Location.isIn_segment _)] at hfree
          cases hfree
        | written other later mem hother hheld location _ last =>
          exact .written other later (List.mem_cons_of_mem record mem) hother hheld location hnot
            fun howns => Offering.last?_cons_of_some (last howns)

end Pass

/-! ## Dropping what the old segment still has -/

lemma SegmentId.same_comm (a b : SegmentId) : a.same b = b.same a := by
  simp [same, Bool.beq_comm]

lemma KeyIndex.isSome_removeOwned_iff {i : KeyIndex} {hash : KeyHash} {segment : SegmentId}
    {records : List Record} {key : IndexKey} :
    ((i.removeOwned hash segment records).2.get? key).isSome ↔
      ∃ entry, i.get? key = some entry ∧
        ¬ (entry.location.isIn segment = true ∧ Covered hash records key entry) := by
  simp only [Option.isSome_iff_exists, get?_removeOwned]

namespace Offering

/-- When a replacement leaves a key of the new segment in place: the two segments are different
instances; or the entry that the key had before turns away all its records; or the last of its
records is not at the position of a record of the key in the old segment. -/
def Keeps (o : Offering) (old : SegmentId) (records dropped : List Record)
    (before : IndexKey → Option Entry) (key : IndexKey) : Prop :=
  old.same o.segment = true → o.TurnedAway records before key ∨
    ∀ last, o.last? records key = some last →
      ∀ other ∈ dropped, o.key other = key → other.doc ≠ last.doc

variable {o : Offering} {old : SegmentId} {records : List Record} {record : Record}
  {before : IndexKey → Option Entry} {i : KeyIndex}

lemma ownedByReplaced_eq (replacing : o.terms.replacing = some old) (entry : Entry) :
    o.terms.ownedByReplaced entry = entry.location.isIn old := by
  rw [Terms.ownedByReplaced, replacing]

/-- A segment that replaces itself may overwrite its own records. -/
lemma owned_of_isIn (replacing : o.terms.replacing = some old)
    (hsame : old.same o.segment = true) (entry : Entry)
    (h : entry.location.isIn o.segment = true) : o.terms.ownedByReplaced entry = true := by
  rw [ownedByReplaced_eq replacing]
  simp only [Location.isIn, SegmentId.same, beq_iff_eq] at h hsame ⊢
  omega

lemma Settled.isSome_removeOwned_iff (replacing : o.terms.replacing = some old)
    (dropped : List Record) (mem : record ∈ records)
    (h : Settled o records before i.get? (o.key record)) :
    ((i.removeOwned o.hash old dropped).2.get? (o.key record)).isSome ↔
      o.Keeps old records dropped before (o.key record) := by
  rw [KeyIndex.isSome_removeOwned_iff]
  cases h with
  | kept away same =>
    -- the entry has turned a record away, so it is not in the old segment
    obtain ⟨entry, hentry, hfree⟩ := not_owned_of_reject (away record mem rfl)
    rw [ownedByReplaced_eq replacing] at hfree
    refine iff_of_true ⟨entry, same.trans hentry, ?_⟩ fun _ => .inl away
    rintro ⟨hin, -⟩
    rw [hfree] at hin
    cases hin
  | written last entry lastMem hkey held location notAway isLast =>
    have hin : entry.location.isIn old = old.same o.segment := by
      rw [location, SegmentId.same_comm]
      rfl
    have hmatch : ∀ other : Record, other.Matches o.hash (o.key record) entry ↔
        o.key other = o.key record ∧ other.doc = last.doc := by
      intro other
      rw [Record.Matches, location]
      rfl
    rw [held]
    constructor
    · rintro ⟨found, hfound, hnot⟩ hsame
      cases hfound
      right
      intro last' hlast' other hmem hother hdoc
      rw [isLast (owned_of_isIn replacing hsame)] at hlast'
      cases hlast'
      exact hnot ⟨hin.trans hsame, other, hmem, (hmatch other).2 ⟨hother, hdoc⟩⟩
    · intro h
      refine ⟨entry, rfl, ?_⟩
      rintro ⟨hentry, other, hmem, hother⟩
      have hsame : old.same o.segment = true := hin.symm.trans hentry
      rcases h hsame with haway | hapart
      · exact notAway haway
      · obtain ⟨hkey, hdoc⟩ := (hmatch other).1 hother
        exact hapart last (isLast (owned_of_isIn replacing hsame)) other hmem hkey hdoc

end Offering

namespace Partition

variable {p : Partition} {old new : Segment} {counts : Counts}

/-- A replacement that was applied has offered the records of the new segment to the index of
before, and then dropped those of the old one. -/
lemma replaced_of_applied (applied : (p.change (.replace old new)).1 = .ok (.applied counts)) :
    ∃ q records dropped pass, p.start (.replace old new) = (none, q) ∧
      q.readAll new = .ok records ∧ q.readAll old = .ok dropped ∧
      Pass.run (q.offering (.replace old new) (some (old.id, dropped))) records
        { index := p.index } = (none, pass) ∧
      (p.change (.replace old new)).2.index =
        (pass.index.removeOwned p.settings.hash old.id dropped).2 := by
  obtain ⟨q, hstart, hperformed⟩ := performed_of_applied applied
  obtain ⟨watermark, gate, -, hq⟩ := start_none hstart
  generalize (p.change (.replace old new)).2.index = index at hperformed ⊢
  generalize (q.perform (.replace old new)).2.log = log at hperformed
  cases hperformed with
  | removed _ _ hchange => cases hchange
  | added _ _ _ hchange => cases hchange
  | replaced old' new' dropped records pass hchange hread hold hrun =>
    cases hchange
    refine ⟨q, records, dropped, pass, hstart, hread, hold, ?_, ?_⟩
    · rw [← show q.index = p.index by rw [hq]]
      exact hrun
    · rw [hq]

/-- Take a replacement that was applied.  A key of a record of the new segment is held
afterwards if and only if the replacement `Keeps` it, so always if the two segments are
different instances.  A key that was held before and is held no longer is a key of the old
segment, and of the new one only if the two are the same instance. -/
theorem replacement_keeps_key_iff
    (applied : (p.change (.replace old new)).1 = .ok (.applied counts)) :
    ∃ q o records dropped, p.start (.replace old new) = (none, q) ∧
      q.readAll new = .ok records ∧ q.readAll old = .ok dropped ∧
      o = q.offering (.replace old new) (some (old.id, dropped)) ∧
      (∀ record ∈ records,
        ((p.change (.replace old new)).2.index.get? (p.keyOf record.key)).isSome ↔
          o.Keeps old.id records dropped p.index.get? (p.keyOf record.key)) ∧
      ∀ key, (p.index.get? key).isSome →
        (p.change (.replace old new)).2.index.get? key = none →
        (∃ other ∈ dropped, p.keyOf other.key = key) ∧
          (old.id.same new.id = false → ∀ record ∈ records, p.keyOf record.key ≠ key) := by
  obtain ⟨q, records, dropped, pass, hstart, hread, hold, hrun, hindex⟩ :=
    replaced_of_applied applied
  obtain ⟨watermark, gate, -, hq⟩ := start_none hstart
  obtain ⟨o, ho⟩ : ∃ o, o = q.offering (.replace old new) (some (old.id, dropped)) := ⟨_, rfl⟩
  have hhash : o.hash = p.settings.hash := by rw [ho, hq]; rfl
  have hkey : ∀ record, o.key record = p.keyOf record.key := by
    intro record
    rw [Offering.key, hhash]
    rfl
  have hsettled : ∀ key, o.Settled records p.index.get? pass.index.get? key := by
    intro key
    have h := Pass.run_settled o records { index := p.index } key
    rw [ho, hrun] at h
    rw [ho]
    exact h rfl
  have hkept : ∀ record ∈ records,
      ((p.change (.replace old new)).2.index.get? (p.keyOf record.key)).isSome ↔
        o.Keeps old.id records dropped p.index.get? (p.keyOf record.key) := by
    intro record hmem
    have hreplacing : o.terms.replacing = some old.id := by rw [ho]; rfl
    have h := (hsettled _).isSome_removeOwned_iff hreplacing dropped hmem
    rw [hhash, hkey] at h
    rw [hindex]
    exact h
  refine ⟨q, o, records, dropped, hstart, hread, hold, ho, hkept, ?_⟩
  intro key hbefore hafter
  constructor
  · -- the pass has left an entry under the key, so it is the old segment that took it away
    obtain ⟨entry, hentry⟩ : ∃ entry, pass.index.get? key = some entry := by
      cases hsettled key with
      | kept _ same =>
        rw [same]
        exact Option.isSome_iff_exists.1 hbefore
      | written _ entry _ _ held => exact ⟨entry, held⟩
    by_contra hnone
    have hheld : (p.change (.replace old new)).2.index.get? key = some entry := by
      rw [hindex, KeyIndex.get?_removeOwned]
      refine ⟨hentry, ?_⟩
      rintro ⟨-, other, hmem, hother⟩
      exact hnone ⟨other, hmem, hother.1⟩
    rw [hheld] at hafter
    cases hafter
  · rintro hapart record hmem rfl
    have hsegment : o.segment = new.id := by rw [ho]; rfl
    have hheld := (hkept record hmem).2 fun hsame => by
      rw [hsegment, hapart] at hsame
      cases hsame
    rw [hafter] at hheld
    cases hheld

end Partition

open Sample in
/-- A partition that holds the two keys of the first segment. -/
def filled : Partition :=
  ((partition { backend := .sorted {} }).change (.add (segment 1 (listing 1)))).2

open Sample in
/-- A second segment replaces the first one: it takes key 1 over, and key 2, which only the first
one has, is dropped. -/
theorem replacement_keeps_key_iff_takeover :
    (filled.change (.replace (segment 1 (listing 1)) (segment 2 (listing 2)))).1 =
        .ok (.applied { superseded := 1, removed := 1 }) ∧
      ((filled.change (.replace (segment 1 (listing 1)) (segment 2 (listing 2)))).2.index.get?
        (key 1)).isSome ∧
      (filled.index.get? (key 2)).isSome ∧
      (filled.change (.replace (segment 1 (listing 1)) (segment 2 (listing 2)))).2.index.get?
        (key 2) = none ∧
      ∃ other ∈ listing 1, filled.keyOf other.key = key 2 := by
  have happlied :
      (filled.change (.replace (segment 1 (listing 1)) (segment 2 (listing 2)))).1 =
        .ok (.applied { superseded := 1, removed := 1 }) := rfl
  have hlost :
      (filled.change (.replace (segment 1 (listing 1)) (segment 2 (listing 2)))).2.index.get?
        (key 2) = none := rfl
  obtain ⟨q, o, records, dropped, hstart, hread, hold, ho, hkept, hdropped⟩ :=
    Partition.replacement_keeps_key_iff happlied
  obtain rfl : q = _ := (congrArg Prod.snd hstart).symm
  obtain rfl : listing 2 = records := Except.ok.inj hread
  obtain rfl : listing 1 = dropped := Except.ok.inj hold
  refine ⟨happlied, ?_, rfl, hlost, (hdropped (key 2) rfl hlost).1⟩
  refine (hkept (record 1 0 (.int 7)) List.mem_cons_self).2 fun hsame => ?_
  rw [ho] at hsame
  exact absurd hsame (by decide)

open Sample in
/-- A segment that replaces itself can lose its only key: the pass writes the key where it was,
and what is there is dropped. -/
theorem replacement_by_itself_can_lose_a_key :
    ¬ ∀ (p : Partition) (calls : List Call) (old new : Segment) (counts : Counts)
      (records : List Record), p.index.keys = [] → new.kind = .immutable →
      ((p.run calls).change (.replace old new)).1 = .ok (.applied counts) →
      new.read p.readRequest = .ok records →
      ∀ record ∈ records, (((p.run calls).change (.replace old new)).2.index.get?
        (p.keyOf record.key)).isSome := by
  intro h
  have hheld := h (partition { backend := .sorted {} })
    [.change (.add (segment 1 [record 1 0 (.int 5)]))] (segment 1 [record 1 0 (.int 5)])
    (segment 1 [record 1 0 (.int 5)]) { superseded := 1, removed := 1 } [record 1 0 (.int 5)]
    rfl rfl rfl rfl (record 1 0 (.int 5)) List.mem_cons_self
  exact absurd hheld (by decide)

end PartitionKeys

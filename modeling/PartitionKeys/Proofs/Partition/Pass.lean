/-
# Offering, undoing and dropping, in terms of entries

A pass offers the records of a segment one by one and journals what each write displaced.
What one record does to the entries, the journal and the counts is said once, by
`Pass.Took`; everything about whole passes follows by induction on the records.  The main
result is `rollBack_run`: undoing the journal of a pass, newest write first, finds every
write in its place and puts back the entries from before the pass, whatever mixture of
insertions, replacements and rejections the pass was.  Dropping the records of a segment takes
away exactly the entries that they stand for.
-/
import PartitionKeys.Partition.SegmentChange
import PartitionKeys.Proofs.Index.Lookup
import Mathlib.Tactic.Tauto

namespace PartitionKeys

namespace Offering

/-- The key under which a record is offered. -/
def key (o : Offering) (record : Record) : IndexKey := o.hash.apply record.key

lemma entry_fst (o : Offering) (record : Record) : (o.entry record).1 = o.key record := rfl

end Offering

namespace Pass

lemma note_index (pass : Pass) (o : Offering) (record : Record) (update : Update) :
    (pass.note o record update).index = pass.index := by
  obtain ⟨outcome, displaced⟩ := update
  cases outcome with
  | inserted | superseded => rfl
  | rejected => cases hkind : o.terms.kind <;> simp [note, hkind]

/-- What offering one record answers, and what it does to a pass. -/
inductive Took (o : Offering) (record : Record) (pass : Pass) : Option IndexError × Pass → Prop
  | refused (e : IndexError) (next : Pass) (entries : next.index.get? = pass.index.get?)
    (journal : next.journal = pass.journal) (counts : next.counts = pass.counts) :
    Took o record pass (some e, next)
  | rejected (next : Pass)
    (resolution : resolve (pass.index.get? (o.key record)) (o.entry record).2 o.terms =
      .ok .reject)
    (entries : next.index.get? = pass.index.get?) (journal : next.journal = pass.journal)
    (counts : next.counts = pass.counts.record .rejected) :
    Took o record pass (none, next)
  | written (next : Pass) (r : Resolution) (entry : Entry)
    (resolution : resolve (pass.index.get? (o.key record)) (o.entry record).2 o.terms = .ok r)
    (held : r.entry? = some entry)
    (entries : next.index.get? = Function.update pass.index.get? (o.key record) (some entry))
    (journal : next.journal =
      ⟨o.key record, o.location record, pass.index.get? (o.key record)⟩ :: pass.journal)
    (counts : next.counts = pass.counts.record r.outcome) :
    Took o record pass (none, next)

lemma run_singleton (o : Offering) (record : Record) (pass : Pass) :
    Took o record pass (run o [record] pass) := by
  have hoffered := pass.index.apply_offered (o.key record) (o.entry record).2 o.terms
  simp only [run, Offering.entry_fst]
  rcases hcall : pass.index.apply (o.key record) (o.entry record).2 o.terms with ⟨answer, index⟩
  rw [hcall] at hoffered
  generalize hentries : index.get? = entries at hoffered
  cases hoffered with
  | refused e => exact .refused e _ hentries rfl rfl
  | rejected h =>
    cases hkind : o.terms.kind with
    | dedup =>
      refine .rejected _ h ?_ ?_ ?_ <;> simp only [note, hkind]
      exact hentries
    | upsert =>
      refine .rejected _ h ?_ ?_ ?_ <;> simp only [note, hkind]
      exact hentries
  | written r entry h hr =>
    have hnote : note { pass with index } o record ⟨r.outcome, pass.index.get? (o.key record)⟩ =
        { pass with
          index
          counts := pass.counts.record r.outcome
          journal := ⟨o.key record, o.location record, pass.index.get? (o.key record)⟩ ::
            pass.journal } := by
      cases r <;> first | rfl | cases hr
    dsimp only
    rw [hnote]
    exact .written _ r entry h hr hentries rfl rfl

/-- What a record does to the index and to the journal does not depend on what has been counted
and reported so far. -/
lemma run_singleton_bare (o : Offering) (record : Record) (pass : Pass) :
    (run o [record] { index := pass.index, journal := pass.journal }).1 = (run o [record] pass).1 ∧
      (run o [record] { index := pass.index, journal := pass.journal }).2.index =
        (run o [record] pass).2.index ∧
      (run o [record] { index := pass.index, journal := pass.journal }).2.journal =
        (run o [record] pass).2.journal := by
  simp only [run, Offering.entry_fst]
  rcases pass.index.apply (o.key record) (o.entry record).2 o.terms with ⟨e | update, index⟩
  · exact ⟨rfl, rfl, rfl⟩
  · obtain ⟨outcome, displaced⟩ := update
    cases outcome with
    | inserted | superseded => exact ⟨rfl, rfl, rfl⟩
    | rejected => cases hkind : o.terms.kind <;> simp [note, hkind]

lemma run_cons (o : Offering) (record : Record) (rest : List Record) (pass : Pass) :
    run o (record :: rest) pass =
      match run o [record] pass with
      | (some e, pass) => (some e, pass)
      | (none, pass) => run o rest pass :=
  run_append o [record] rest pass

/-- An induction over the records of a pass: what one record keeps, the whole pass keeps. -/
lemma run_induction (o : Offering) {motive : List Record → Pass → Option IndexError × Pass → Prop}
    (nil : ∀ pass, motive [] pass (none, pass))
    (refused : ∀ record rest pass e next, Took o record pass (some e, next) →
      motive (record :: rest) pass (some e, next))
    (taken : ∀ record rest pass next, Took o record pass (none, next) →
      motive rest next (run o rest next) → motive (record :: rest) pass (run o rest next)) :
    ∀ records pass, motive records pass (run o records pass) := by
  intro records
  induction records with
  | nil => exact nil
  | cons record rest ih =>
    intro pass
    have htook := run_singleton o record pass
    rw [run_cons]
    rcases hone : run o [record] pass with ⟨answer, next⟩
    rw [hone] at htook
    cases answer with
    | some e => exact refused record rest pass e next htook
    | none => exact taken record rest pass next htook (ih next)

end Pass

/-! ## Undoing -/

namespace KeyIndex

lemma rollBack_singleton (write : Write) (i : KeyIndex) :
    i.rollBack [write] =
      ((i.restore write.key write.written write.displaced).1.toNat,
        (i.restore write.key write.written write.displaced).2) := by
  simp [rollBack]

/-- Undoing the newest write of a pass finds it in place and gives the key its former entry
back. -/
lemma restore_of_get?_eq {i : KeyIndex} {before : IndexKey → Option Entry} (write : Write)
    {entry : Entry} (hget : i.get? = Function.update before write.key (some entry))
    (hlocation : entry.location = write.written) (hdisplaced : write.displaced = before write.key) :
    (i.restore write.key write.written write.displaced).1 = true ∧
      (i.restore write.key write.written write.displaced).2.get? = before := by
  have hpoints : i.pointsAt write.key write.written = true := by
    refine pointsAt_iff.2 ⟨entry, ?_, ?_⟩
    · rw [hget, Function.update_self]
    · rw [hlocation, Location.same_self]
  refine ⟨by rw [restore_fst, hpoints], ?_⟩
  rw [get?_restore, if_pos hpoints, hget, hdisplaced, Function.update_idem,
    Function.update_eq_self]

/-- A pass only adds to its journal, and undoing what it has added restores every write and
puts back the entries that were there before the pass. -/
lemma rollBack_run (o : Offering) (records : List Record) (pass : Pass) :
    ∃ added, (Pass.run o records pass).2.journal = added ++ pass.journal ∧
      ((Pass.run o records pass).2.index.rollBack added).1 = added.length ∧
      ((Pass.run o records pass).2.index.rollBack added).2.get? = pass.index.get? := by
  refine Pass.run_induction o
    (motive := fun _ pass result => ∃ added, result.2.journal = added ++ pass.journal ∧
      (result.2.index.rollBack added).1 = added.length ∧
      (result.2.index.rollBack added).2.get? = pass.index.get?) ?_ ?_ ?_ records pass
  · intro pass
    exact ⟨[], rfl, rfl, rfl⟩
  · intro record rest pass e next htook
    cases htook with
    | refused _ _ entries journal _ => exact ⟨[], journal, rfl, entries⟩
  · intro record rest pass next htook ih
    obtain ⟨added, hjournal, hcount, hget⟩ := ih
    cases htook with
    | rejected _ _ entries journal _ =>
      exact ⟨added, by rw [hjournal, journal], hcount, by rw [hget, entries]⟩
    | written _ r entry resolution held entries journal _ =>
      -- the write of this record is the oldest of those added, so it is undone last
      refine ⟨added ++ [⟨o.key record, o.location record, pass.index.get? (o.key record)⟩],
        by rw [hjournal, journal, List.append_assoc]; rfl, ?_⟩
      obtain ⟨hrestored, hback⟩ := restore_of_get?_eq
        ⟨o.key record, o.location record, pass.index.get? (o.key record)⟩
        (hget.trans entries) (resolve_location resolution held) rfl
      rw [rollBack_append, rollBack_singleton]
      refine ⟨?_, hback⟩
      rw [hrestored, hcount, List.length_append, Nat.add_comm]
      rfl

/-- Undoing a whole pass. -/
lemma rollBack_journal (o : Offering) (records : List Record) (i : KeyIndex) :
    ((Pass.run o records { index := i }).2.index.rollBack
        (Pass.run o records { index := i }).2.journal).1 =
        (Pass.run o records { index := i }).2.journal.length ∧
      ((Pass.run o records { index := i }).2.index.rollBack
        (Pass.run o records { index := i }).2.journal).2.get? = i.get? := by
  obtain ⟨added, hjournal, hcount, hget⟩ := rollBack_run o records { index := i }
  rw [List.append_nil] at hjournal
  rw [hjournal]
  exact ⟨hcount, hget⟩

end KeyIndex

/-! ## Dropping -/

/-- Whether a record stands for the entry of a key. -/
def Record.Matches (hash : KeyHash) (record : Record) (key : IndexKey) (entry : Entry) : Prop :=
  hash.apply record.key = key ∧ record.doc = entry.location.doc

/-- Whether one of the records stands for the entry of a key. -/
def Covered (hash : KeyHash) (records : List Record) (key : IndexKey) (entry : Entry) : Prop :=
  ∃ record ∈ records, record.Matches hash key entry

lemma covered_cons {hash : KeyHash} {record : Record} {rest : List Record} {key : IndexKey}
    {entry : Entry} :
    Covered hash (record :: rest) key entry ↔
      record.Matches hash key entry ∨ Covered hash rest key entry := by
  simp [Covered]

namespace KeyIndex

/-- Dropping the key of a record of a segment takes away the entry that the record stands for,
and nothing else. -/
lemma get?_remove_record (i : KeyIndex) (hash : KeyHash) (segment : SegmentId) (record : Record)
    (key : IndexKey) (entry : Entry) :
    (i.remove (hash.apply record.key) ⟨segment, record.doc⟩).2.get? key = some entry ↔
      i.get? key = some entry ∧
        ¬ (entry.location.isIn segment = true ∧ record.Matches hash key entry) := by
  rw [get?_remove]
  split
  · next h =>
    obtain ⟨held, hget, hsame⟩ := pointsAt_iff.1 h
    obtain ⟨hdoc, hin⟩ := Location.same_iff.1 hsame
    by_cases hkey : key = hash.apply record.key
    · subst hkey
      rw [Function.update_self, hget]
      constructor
      · exact fun h => nomatch h
      · rintro ⟨hheld, hmatch⟩
        cases hheld
        exact absurd ⟨hin, rfl, hdoc.symm⟩ hmatch
    · rw [Function.update_of_ne hkey]
      exact ⟨fun h => ⟨h, fun hmatch => hkey hmatch.2.1.symm⟩, fun h => h.1⟩
  · next h =>
    refine ⟨fun hget => ⟨hget, ?_⟩, fun h => h.1⟩
    rintro ⟨hin, rfl, hdoc⟩
    exact h (pointsAt_iff.2 ⟨entry, hget, Location.same_iff.2 ⟨hdoc.symm, hin⟩⟩)

/-- Dropping the keys of records of a segment takes away the entries that they stand for. -/
lemma get?_removeOwned (hash : KeyHash) (segment : SegmentId) (records : List Record)
    (i : KeyIndex) (key : IndexKey) (entry : Entry) :
    (i.removeOwned hash segment records).2.get? key = some entry ↔
      i.get? key = some entry ∧
        ¬ (entry.location.isIn segment = true ∧ Covered hash records key entry) := by
  induction records generalizing i with
  | nil =>
    refine ⟨fun h => ⟨h, ?_⟩, fun h => h.1⟩
    rintro ⟨-, record, hmem, -⟩
    exact absurd hmem List.not_mem_nil
  | cons record rest ih =>
    refine (ih (i.remove (hash.apply record.key) ⟨segment, record.doc⟩).2).trans ?_
    rw [get?_remove_record, covered_cons]
    tauto

end KeyIndex

end PartitionKeys

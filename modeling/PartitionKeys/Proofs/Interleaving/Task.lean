/-
# Operations that take turns

Between any two calls of the index other operations may run.  Here an operation is a `Task`:
what is left of it to do, one call of the index after the other.  A `World` is an index with
the tasks that share it, and a schedule says whose turn it is.  What one turn does to the
entries is said once, by `Task.Stepped`.  The main result of this module, `perform_alone`,
is that a task that is alone does what the operation does in one go.
-/
import PartitionKeys.Proofs.Partition.Change

namespace PartitionKeys

/-- What is left to do of an operation on segments. -/
inductive Task where
  /-- Records are offered.  Once all are accepted, the old segment is dropped, if there is
  one. -/
  | offering (o : Offering) (rest : List Record) (journal : List Write)
    (old : Option (SegmentId × List Record))
  /-- A record was refused: the writes are undone.  Some were not found in place. -/
  | undoing (journal skipped : List Write)
  /-- The keys of records are dropped. -/
  | dropping (hash : KeyHash) (segment : SegmentId) (rest : List Record)

namespace Task

/-- Whether nothing is left to do. -/
def isDone : Task → Bool
  | .offering _ [] _ none => true
  | .undoing [] _ => true
  | .dropping _ _ [] => true
  | _ => false

/-- The next call of the index. -/
def step (i : KeyIndex) : Task → KeyIndex × Task
  | .offering o (record :: rest) journal old =>
    match Pass.run o [record] { index := i, journal } with
    | (none, pass) => (pass.index, .offering o rest pass.journal old)
    | (some _, pass) => (pass.index, .undoing pass.journal [])
  | .offering o [] _ (some (segment, records)) => (i, .dropping o.hash segment records)
  | .offering o [] journal none => (i, .offering o [] journal none)
  | .undoing [] skipped => (i, .undoing [] skipped)
  | .undoing (write :: rest) skipped =>
    let (restored, i) := i.restore write.key write.written write.displaced
    (i, .undoing rest (if restored then skipped else write :: skipped))
  | .dropping hash segment [] => (i, .dropping hash segment [])
  | .dropping hash segment (record :: rest) =>
    ((i.remove (hash.apply record.key) ⟨segment, record.doc⟩).2, .dropping hash segment rest)

/-- What a turn of a task does to the entries and to the task. -/
inductive Stepped (before : IndexKey → Option Entry) :
    Task → (IndexKey → Option Entry) → Task → Prop
  | done (task : Task) (h : task.isDone = true) : Stepped before task before task
  | refused (o : Offering) (record : Record) (rest : List Record) (journal : List Write)
    (old : Option (SegmentId × List Record)) :
    Stepped before (.offering o (record :: rest) journal old) before (.undoing journal [])
  | rejected (o : Offering) (record : Record) (rest : List Record) (journal : List Write)
    (old : Option (SegmentId × List Record))
    (resolution : resolve (before (o.key record)) (o.entry record).2 o.terms = .ok .reject) :
    Stepped before (.offering o (record :: rest) journal old) before
      (.offering o rest journal old)
  | written (o : Offering) (record : Record) (rest : List Record) (journal : List Write)
    (old : Option (SegmentId × List Record)) (r : Resolution) (entry : Entry)
    (resolution : resolve (before (o.key record)) (o.entry record).2 o.terms = .ok r)
    (held : r.entry? = some entry) :
    Stepped before (.offering o (record :: rest) journal old)
      (Function.update before (o.key record) (some entry))
      (.offering o rest (⟨o.key record, o.location record, before (o.key record)⟩ :: journal) old)
  | turned (o : Offering) (journal : List Write) (segment : SegmentId) (records : List Record) :
    Stepped before (.offering o [] journal (some (segment, records))) before
      (.dropping o.hash segment records)
  | restored (write : Write) (rest skipped : List Write) (entry : Entry)
    (hget : before write.key = some entry) (hsame : entry.location.same write.written = true) :
    Stepped before (.undoing (write :: rest) skipped)
      (Function.update before write.key write.displaced) (.undoing rest skipped)
  | skipped (write : Write) (rest skipped : List Write)
    (hgone : ∀ entry, before write.key = some entry →
      entry.location.same write.written = false) :
    Stepped before (.undoing (write :: rest) skipped) before (.undoing rest (write :: skipped))
  | dropped (hash : KeyHash) (segment : SegmentId) (record : Record) (rest : List Record)
    (after : IndexKey → Option Entry)
    (entries : ∀ key entry, after key = some entry ↔ before key = some entry ∧
      ¬ (entry.location.isIn segment = true ∧ record.Matches hash key entry)) :
    Stepped before (.dropping hash segment (record :: rest)) after (.dropping hash segment rest)

lemma not_pointsAt {i : KeyIndex} {key : IndexKey} {l : Location} (h : ¬ i.pointsAt key l = true)
    (entry : Entry) (hget : i.get? key = some entry) : entry.location.same l = false := by
  rw [Bool.eq_false_iff]
  exact fun hsame => h (KeyIndex.pointsAt_iff.2 ⟨entry, hget, hsame⟩)

lemma stepped_offering (i : KeyIndex) (o : Offering) (record : Record) (rest : List Record)
    (journal : List Write) (old : Option (SegmentId × List Record)) :
    Stepped i.get? (.offering o (record :: rest) journal old)
      ((offering o (record :: rest) journal old).step i).1.get?
      ((offering o (record :: rest) journal old).step i).2 := by
  have htook := Pass.run_singleton o record { index := i, journal }
  rcases hrun : Pass.run o [record] { index := i, journal } with ⟨answer, pass⟩
  rw [hrun] at htook
  simp only [step, hrun]
  cases htook with
  | refused e _ entries hjournal =>
    dsimp only at entries hjournal ⊢
    rw [entries, hjournal]
    exact .refused o record rest journal old
  | rejected _ resolution entries hjournal =>
    dsimp only at entries hjournal ⊢
    rw [entries, hjournal]
    exact .rejected o record rest journal old resolution
  | written _ r entry resolution held entries hjournal =>
    dsimp only at entries hjournal ⊢
    rw [entries, hjournal]
    exact .written o record rest journal old r entry resolution held

lemma stepped_undoing (i : KeyIndex) (write : Write) (rest skipped : List Write) :
    Stepped i.get? (.undoing (write :: rest) skipped)
      ((undoing (write :: rest) skipped).step i).1.get?
      ((undoing (write :: rest) skipped).step i).2 := by
  simp only [step, KeyIndex.restore_fst, KeyIndex.get?_restore]
  split
  · next h =>
    obtain ⟨entry, hget, hsame⟩ := KeyIndex.pointsAt_iff.1 h
    exact .restored write rest skipped entry hget hsame
  · next h => exact .skipped write rest skipped (not_pointsAt h)

/-- Every turn of a task is one of the kinds above. -/
lemma stepped (i : KeyIndex) (task : Task) :
    Stepped i.get? task (task.step i).1.get? (task.step i).2 := by
  cases task with
  | offering o rest journal old =>
    cases rest with
    | cons record rest => exact stepped_offering i o record rest journal old
    | nil =>
      cases old with
      | none => exact .done _ rfl
      | some old => exact .turned o journal old.1 old.2
  | undoing journal skipped =>
    cases journal with
    | nil => exact .done _ rfl
    | cons write rest => exact stepped_undoing i write rest skipped
  | dropping hash segment rest =>
    cases rest with
    | nil => exact .done _ rfl
    | cons record rest =>
      exact .dropped hash segment record rest _ (i.get?_remove_record hash segment record)

/-! ## Tasks that add a segment -/

/-- The writes that may still have to be undone, newest first. -/
def live : Task → List Write
  | .offering _ _ journal _ => journal
  | .undoing journal _ => journal
  | .dropping .. => []

/-- The writes that were passed over, since they were not found in place. -/
def skipped : Task → List Write
  | .undoing _ skipped => skipped
  | _ => []

/-- A task that adds a segment: it offers records, or it undoes. -/
def Adds (segment : SegmentId) : Task → Prop
  | .offering o _ _ old => o.segment = segment ∧ old = none
  | .undoing .. => True
  | .dropping .. => False

/-- What a turn of a task that adds a segment does to the entries and to its journal. -/
inductive Journaled (segment : SegmentId) (before after : IndexKey → Option Entry)
    (task next : Task) : Prop
  | idle (entries : after = before) (live : next.live = task.live)
    (skipped : next.skipped = task.skipped)
  | wrote (write : Write) (entry : Entry)
    (entries : after = Function.update before write.key (some entry))
    (hin : entry.location.isIn segment = true) (hlocation : entry.location = write.written)
    (displaced : write.displaced = before write.key) (live : next.live = write :: task.live)
    (skipped : next.skipped = task.skipped)
  | undone (write : Write) (entry : Entry)
    (entries : after = Function.update before write.key write.displaced)
    (hget : before write.key = some entry) (hsame : entry.location.same write.written = true)
    (live : task.live = write :: next.live) (skipped : next.skipped = task.skipped)
    (undoing : task = .undoing (write :: next.live) task.skipped)
  | passed (write : Write) (entries : after = before) (live : task.live = write :: next.live)
    (skipped : next.skipped = write :: task.skipped)

lemma Adds.journaled {segment : SegmentId} {before after : IndexKey → Option Entry}
    {task next : Task} (hadds : task.Adds segment) (h : Stepped before task after next) :
    next.Adds segment ∧ Journaled segment before after task next := by
  cases h with
  | done => exact ⟨hadds, .idle rfl rfl rfl⟩
  | refused => exact ⟨trivial, .idle rfl rfl rfl⟩
  | rejected => exact ⟨hadds, .idle rfl rfl rfl⟩
  | written o record rest journal old r entry resolution held =>
    have hlocation : entry.location = o.location record := resolve_location resolution held
    refine ⟨hadds, .wrote ⟨o.key record, o.location record, before (o.key record)⟩ entry rfl ?_
      hlocation rfl rfl rfl⟩
    rw [hlocation, ← hadds.1]
    exact Location.isIn_segment _
  | turned => exact absurd hadds.2 (Option.some_ne_none _)
  | restored write rest skipped entry hget hsame =>
    exact ⟨trivial, .undone write entry rfl hget hsame rfl rfl rfl⟩
  | skipped write => exact ⟨trivial, .passed write rfl rfl rfl⟩
  | dropped => exact hadds.elim

/-- A write that may have to be undone after a turn might have had to be undone before, or it
is new: then it is in the segment that is added, and it displaced what was there. -/
lemma Journaled.of_mem_live {segment : SegmentId} {before after : IndexKey → Option Entry}
    {task next : Task} (h : Journaled segment before after task next) {write : Write}
    (hmem : write ∈ next.live) :
    write ∈ task.live ∨
      write.written.isIn segment = true ∧ write.displaced = before write.key := by
  cases h with
  | idle _ live => exact .inl (by rwa [← live])
  | wrote other entry _ hin hlocation displaced live =>
    rw [live] at hmem
    rcases List.mem_cons.1 hmem with rfl | hmem
    · exact .inr ⟨by rwa [← hlocation], displaced⟩
    · exact .inl hmem
  | undone _ _ _ _ _ live => exact .inl (by rw [live]; exact List.mem_cons_of_mem _ hmem)
  | passed _ _ live => exact .inl (by rw [live]; exact List.mem_cons_of_mem _ hmem)

/-! ## A task that is alone -/

/-- A task and the index after some turns without others in between. -/
def alone : Nat → KeyIndex → Task → KeyIndex × Task
  | 0, i, task => (i, task)
  | n + 1, i, task => alone n (task.step i).1 (task.step i).2

lemma alone_add (m n : Nat) (i : KeyIndex) (task : Task) :
    alone (m + n) i task = alone n (alone m i task).1 (alone m i task).2 := by
  induction m generalizing i task with
  | zero => rw [Nat.zero_add, alone]
  | succ m ih => rw [Nat.succ_add, alone, alone, ih]

/-- Undoing alone is a roll-back, and what was not restored was skipped. -/
lemma alone_undoing (i : KeyIndex) (journal skipped : List Write) :
    ∃ missed, alone journal.length i (.undoing journal skipped) =
        ((i.rollBack journal).2, .undoing [] (missed ++ skipped)) ∧
      (i.rollBack journal).1 + missed.length = journal.length := by
  induction journal generalizing i skipped with
  | nil => exact ⟨[], rfl, rfl⟩
  | cons write rest ih =>
    rw [List.length_cons, alone]
    simp only [step, KeyIndex.rollBack]
    rcases i.restore write.key write.written write.displaced with ⟨restored, j⟩
    cases restored with
    | true =>
      obtain ⟨missed, hend, hcount⟩ := ih j skipped
      refine ⟨missed, hend, ?_⟩
      dsimp only [Bool.toNat_true]
      omega
    | false =>
      obtain ⟨missed, hend, hcount⟩ := ih j (write :: skipped)
      refine ⟨missed ++ [write], ?_, ?_⟩
      · rw [List.append_assoc]
        exact hend
      · rw [List.length_append, List.length_singleton]
        dsimp only [Bool.toNat_false]
        omega

lemma alone_dropping (i : KeyIndex) (hash : KeyHash) (segment : SegmentId)
    (records : List Record) :
    alone records.length i (.dropping hash segment records) =
      ((i.removeOwned hash segment records).2, .dropping hash segment []) := by
  induction records generalizing i with
  | nil => rfl
  | cons record rest ih =>
    rw [List.length_cons, alone]
    exact ih _

/-- Offering alone is a pass, up to where the task turns to undoing or dropping. -/
lemma alone_offering (o : Offering) (records : List Record)
    (old : Option (SegmentId × List Record)) (pass : Pass) :
    ∃ n, alone n pass.index (.offering o records pass.journal old) =
      match Pass.run o records pass with
      | (some _, pass) => (pass.index, .undoing pass.journal [])
      | (none, pass) => (pass.index, .offering o [] pass.journal old) := by
  induction records generalizing pass with
  | nil => exact ⟨0, rfl⟩
  | cons record rest ih =>
    obtain ⟨hanswer, hindex, hjournal⟩ := Pass.run_singleton_bare o record pass
    rcases hone : Pass.run o [record] { index := pass.index, journal := pass.journal }
      with ⟨answer, bare⟩
    rcases hfull : Pass.run o [record] pass with ⟨answer', next⟩
    rw [hone, hfull] at hanswer hindex hjournal
    dsimp only at hanswer hindex hjournal
    rw [Pass.run_cons, hfull]
    cases answer' with
    | some e =>
      refine ⟨1, ?_⟩
      rw [alone, alone]
      simp only [step, hone, hanswer, hindex, hjournal]
    | none =>
      obtain ⟨n, hn⟩ := ih next
      refine ⟨n + 1, ?_⟩
      rw [alone]
      simp only [step, hone, hanswer, hindex, hjournal]
      exact hn

end Task

namespace Partition

/-- The task of the second half of an operation, if its segments can be read. -/
def task? (p : Partition) (change : SegmentChange) : Option Task :=
  match p.readAll change.target with
  | .error _ => none
  | .ok records =>
    match change with
    | .remove segment => some (.dropping p.settings.hash segment.id records)
    | .add _ | .replace _ _ =>
      match p.readOld change.old? with
      | .error _ => none
      | .ok old => some (.offering (p.offering change old) records [] old)

/-- The task of an operation that brings records in, when it is alone. -/
lemma offerRecords_alone (p : Partition) (change : SegmentChange) (records : List Record)
    (old : Option (SegmentId × List Record)) :
    ∃ n final, Task.alone n p.index (.offering (p.offering change old) records [] old) =
        ((p.offerRecords change.target old records).2.index, final) ∧ final.isDone = true := by
  obtain ⟨n, hoffer⟩ := Task.alone_offering (p.offering change old) records old
    { index := p.index }
  rcases hrun : Pass.run (p.offering change old) records { index := p.index } with ⟨_ | e, pass⟩
  · rw [offerRecords_eq, hrun]
    rw [hrun] at hoffer
    cases old with
    | none => exact ⟨n, _, hoffer, rfl⟩
    | some owned =>
      obtain ⟨segment, dropped⟩ := owned
      -- one more turn passes from offering to dropping
      refine ⟨n + (1 + dropped.length), .dropping p.settings.hash segment [], ?_, rfl⟩
      rw [Task.alone_add, hoffer, Nat.add_comm 1, Task.alone]
      exact Task.alone_dropping pass.index p.settings.hash segment dropped
  · rw [offerRecords_eq, hrun]
    rw [hrun] at hoffer
    obtain ⟨missed, hundone, -⟩ := Task.alone_undoing pass.index pass.journal []
    refine ⟨n + pass.journal.length, .undoing [] (missed ++ []), ?_, rfl⟩
    rw [Task.alone_add, hoffer]
    exact hundone

/-- A task that is alone leaves the index as the operation does in one go. -/
theorem perform_alone {p : Partition} {change : SegmentChange} {task : Task}
    (h : p.task? change = some task) :
    ∃ n final, Task.alone n p.index task = ((p.perform change).2.index, final) ∧
      final.isDone = true := by
  unfold task? at h
  unfold perform
  cases hread : p.readAll change.target with
  | error e =>
    rw [hread] at h
    cases h
  | ok records =>
    rw [hread] at h
    cases change with
    | remove segment =>
      cases h
      exact ⟨_, _, Task.alone_dropping p.index p.settings.hash segment.id records, rfl⟩
    | add segment =>
      cases h
      exact p.offerRecords_alone (.add segment) records none
    | replace old new =>
      dsimp only at h ⊢
      cases hold : p.readOld (SegmentChange.replace old new).old? with
      | error e =>
        rw [hold] at h
        cases h
      | ok owned =>
        rw [hold] at h
        cases h
        exact p.offerRecords_alone (.replace old new) records owned

end Partition

/-! ## Several tasks on one index -/

/-- An index with the tasks that share it. -/
structure World (ι : Type) where
  index : KeyIndex
  task : ι → Task

namespace World

variable {ι : Type} [DecidableEq ι]

/-- A task takes its turn. -/
def step (w : World ι) (t : ι) : World ι where
  index := ((w.task t).step w.index).1
  task := Function.update w.task t ((w.task t).step w.index).2

/-- The tasks take their turns in the order of a schedule. -/
def run (w : World ι) (schedule : List ι) : World ι := schedule.foldl step w

lemma run_cons (w : World ι) (t : ι) (rest : List ι) : w.run (t :: rest) = (w.step t).run rest :=
  rfl

lemma run_append (w : World ι) (first rest : List ι) :
    w.run (first ++ rest) = (w.run first).run rest :=
  List.foldl_append

/-- What every turn keeps, every schedule keeps. -/
lemma run_induction {motive : World ι → Prop} (hstep : ∀ w t, motive w → motive (w.step t))
    (schedule : List ι) {w : World ι} (h : motive w) : motive (w.run schedule) := by
  induction schedule generalizing w with
  | nil => exact h
  | cons t rest ih => exact ih (hstep w t h)

lemma step_task_self (w : World ι) (t : ι) :
    (w.step t).task t = ((w.task t).step w.index).2 :=
  Function.update_self ..

lemma step_task_of_ne {s t : ι} (h : s ≠ t) (w : World ι) : (w.step t).task s = w.task s :=
  Function.update_of_ne h ..

lemma stepped (w : World ι) (t : ι) :
    Task.Stepped w.index.get? (w.task t) (w.step t).index.get? ((w.step t).task t) := by
  rw [step_task_self]
  exact (w.task t).stepped w.index

end World

end PartitionKeys

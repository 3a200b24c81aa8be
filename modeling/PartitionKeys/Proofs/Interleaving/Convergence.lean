/-
# Convergence of calls that take turns

Records come in by several calls at once: each of them adds a sealed segment or takes in a
single record, and between any two calls of the index another one may have its turn.  With a
single comparison column the index converges all the same: at every moment the entry of a key
is that of the last record offered so far among those with the largest value.  So two
executions that offer the same records, in whatever order and whether in turns or one call after
the other, end with the same entries, if the values for each key are pairwise different.
-/
import PartitionKeys.Proofs.Interleaving.Removal
import PartitionKeys.Proofs.Partition.Convergence

namespace PartitionKeys

/-! ## Calls as tasks -/

/-- A task that offers one record is done after one turn. -/
lemma Task.step_single (i : KeyIndex) (o : Offering) (record : Record) :
    ((offering o [record] [] none).step i).1 = (Pass.run o [record] { index := i }).2.index ∧
      ((offering o [record] [] none).step i).2.isDone = true := by
  have htook := Pass.run_singleton o record { index := i }
  rcases hrun : Pass.run o [record] { index := i } with ⟨answer, pass⟩
  rw [hrun] at htook
  simp only [step, hrun]
  cases htook with
  | refused _ _ _ journal =>
    refine ⟨rfl, ?_⟩
    dsimp only at journal ⊢
    rw [journal]
    rfl
  | rejected => exact ⟨rfl, rfl⟩
  | written => exact ⟨rfl, rfl⟩

namespace Partition

/-- The task of a call that brings records in, if it is let in and its segments can be read. -/
def callTask? (p : Partition) : Call → Option Task
  | .change operation =>
    match p.start operation with
    | (none, q) => q.task? operation
    | (some _, _) => none
  | .ingest segment record =>
    match p.gate.enter? with
    | none => none
    | some gate =>
      match checkRecordTime { p with gate } record with
      | (none, q) => some (.offering (q.singleOffering segment) [record] [] none)
      | (some _, _) => none
  | _ => none

lemma callTask?_change {p : Partition} {operation : SegmentChange} {task : Task}
    (h : p.callTask? (.change operation) = some task) :
    ∃ watermark gate, p.start operation = (none, { p with watermark, gate }) ∧
      task? { p with watermark, gate } operation = some task := by
  unfold callTask? at h
  dsimp only at h
  rcases hstart : p.start operation with ⟨_ | result, q⟩
  · rw [hstart] at h
    obtain ⟨watermark, gate, -, rfl⟩ := start_none hstart
    exact ⟨watermark, gate, rfl, h⟩
  · rw [hstart] at h
    cases h

lemma callTask?_ingest {p : Partition} {segment : SegmentId} {record : Record} {task : Task}
    (h : p.callTask? (.ingest segment record) = some task) :
    ∃ gate watermark, p.gate.enter? = some gate ∧
      p.checkRecordTime record = (none, { p with watermark }) ∧
      task = .offering (singleOffering { p with watermark } segment) [record] [] none := by
  unfold callTask? at h
  cases hgate : p.gate.enter? with
  | none =>
    rw [hgate] at h
    cases h
  | some gate =>
    rw [hgate] at h
    obtain ⟨watermark, hframe⟩ := p.checkRecordTime_frame record
    dsimp only at h
    rw [checkRecordTime_gate] at h
    rcases hcheck : p.checkRecordTime record with ⟨_ | reason, q⟩
    · rw [hcheck] at h hframe
      obtain rfl : q = { p with watermark } := hframe
      cases h
      exact ⟨gate, watermark, rfl, rfl, rfl⟩
    · rw [hcheck] at h
      cases h

/-- A single record that is let in is offered by one turn. -/
lemma ingest_alone {p : Partition} {segment : SegmentId} {record : Record} {task : Task}
    (h : p.callTask? (.ingest segment record) = some task) :
    ∃ final, Task.alone 1 p.index task = ((p.ingest segment record).2.index, final) ∧
      final.isDone = true := by
  obtain ⟨gate, watermark, hgate, hcheck, rfl⟩ := callTask?_ingest h
  obtain ⟨hindex, hdone⟩ := Task.step_single p.index
    (singleOffering { p with watermark } segment) record
  refine ⟨_, Prod.ext ?_ rfl, hdone⟩
  have happly := (applyRecord_eq { p with watermark } segment record).1
  have hoffer := (offerRecord_eq { p with watermark } segment record).2
  rw [ingest_of_enter hgate, hcheck]
  exact hindex.trans (happly.symm.trans hoffer.symm)

/-- A task that is alone leaves the index as the call does. -/
theorem call_alone {p : Partition} {call : Call} {task : Task}
    (h : p.callTask? call = some task) :
    ∃ n final, Task.alone n p.index task = ((p.call call).index, final) ∧
      final.isDone = true := by
  cases call with
  | change operation =>
    obtain ⟨watermark, gate, hstart, htask⟩ := callTask?_change h
    obtain ⟨n, final, halone, hdone⟩ := perform_alone htask
    refine ⟨n, final, ?_, hdone⟩
    rw [Partition.call, change_of_start_none hstart]
    exact halone
  | ingest segment record =>
    obtain ⟨final, halone, hdone⟩ := ingest_alone h
    exact ⟨1, final, halone, hdone⟩
  | sweep | stop | close => cases h

end Partition

/-! ## Turns that offer records -/

namespace Task

/-- The records that a task still has to offer. -/
def pending : Task → List Arrival
  | .offering o rest _ _ => rest.map (Arrival.mk o.segment)
  | _ => []

/-- A task that does nothing but offer records with one column of one type. -/
def BringsIn (s : Settings) (column : String) (type : ValueType) : Task → Prop
  | .offering o rest _ old => old = none ∧ o.Plain s column ∧
      ∀ record ∈ rest, Arrival.IsSingle column type ⟨o.segment, record⟩
  | _ => False

variable {s : Settings} {column : String} {type : ValueType} {task : Task}

lemma BringsIn.isUndoing (h : task.BringsIn s column type) : task.isUndoing = false := by
  cases task with
  | undoing => exact h.elim
  | offering | dropping => rfl

lemma BringsIn.pending_of_isDone (h : task.BringsIn s column type)
    (hdone : task.isDone = true) : task.pending = [] := by
  cases task with
  | offering o rest journal old =>
    obtain ⟨rfl, -⟩ := h
    cases rest with
    | nil => rfl
    | cons record rest => cases hdone
  | undoing | dropping => rfl

/-- A turn offers the next record, and the offer is accepted. -/
lemma BringsIn.step {arrivals : List Arrival} {i : KeyIndex} (h : task.BringsIn s column type)
    (hi : Converges s column type arrivals i) :
    Converges s column type (arrivals ++ task.pending.take 1) (task.step i).1 ∧
      (task.step i).2.BringsIn s column type ∧
      (task.step i).2.pending = task.pending.drop 1 := by
  cases task with
  | undoing | dropping => exact h.elim
  | offering o rest journal old =>
    obtain ⟨rfl, plain, single⟩ := h
    cases rest with
    | nil =>
      rw [pending, List.map_nil, List.take_nil, List.append_nil]
      exact ⟨hi, ⟨rfl, plain, single⟩, rfl⟩
    | cons record rest =>
      obtain ⟨next, hrun, hnext⟩ := Converges.offer { index := i, journal } hi plain
        (single record List.mem_cons_self)
      simp only [Task.step, hrun]
      exact ⟨hnext, ⟨rfl, plain, fun other hmem => single other (List.mem_cons_of_mem _ hmem)⟩,
        rfl⟩

end Task

namespace World

variable {ι : Type} [DecidableEq ι] {s : Settings} {column : String} {type : ValueType}
variable {offered : List Arrival} {w : World ι}

/-- The records in the order in which a schedule has them offered. -/
def arrivals (w : World ι) : List ι → List Arrival
  | [] => []
  | t :: rest => (w.task t).pending.take 1 ++ (w.step t).arrivals rest

/-- Every task brings records in, and the index is that of the records offered so far. -/
structure BringsIn (s : Settings) (column : String) (type : ValueType)
    (offered : List Arrival) (w : World ι) : Prop where
  index : Converges s column type offered w.index
  task : ∀ t, (w.task t).BringsIn s column type

lemma BringsIn.step (h : w.BringsIn s column type offered) (t : ι) :
    (w.step t).BringsIn s column type (offered ++ (w.task t).pending.take 1) ∧
      ((w.step t).task t).pending = (w.task t).pending.drop 1 := by
  obtain ⟨hindex, htask, hpending⟩ := (h.task t).step h.index
  rw [step_task_self]
  refine ⟨⟨hindex, fun u => ?_⟩, hpending⟩
  by_cases hu : u = t
  · subst hu
    rwa [step_task_self]
  · rw [step_task_of_ne hu]
    exact h.task u

/-- What is offered and what is still to be offered are together what was to be offered. -/
lemma BringsIn.mem_step (h : w.BringsIn s column type offered) (t : ι) (a : Arrival) :
    (∃ u, a ∈ (w.task u).pending) ↔
      a ∈ (w.task t).pending.take 1 ∨ ∃ u, a ∈ ((w.step t).task u).pending := by
  obtain ⟨-, hdrop⟩ := h.step t
  have hown : a ∈ (w.task t).pending ↔
      a ∈ (w.task t).pending.take 1 ∨ a ∈ ((w.step t).task t).pending := by
    rw [hdrop, ← List.mem_append, List.take_append_drop]
  constructor
  · rintro ⟨u, hmem⟩
    by_cases hu : u = t
    · subst hu
      exact (hown.1 hmem).imp_right fun h => ⟨u, h⟩
    · exact .inr ⟨u, by rwa [step_task_of_ne hu]⟩
  · rintro (hmem | ⟨u, hmem⟩)
    · exact ⟨t, hown.2 (.inl hmem)⟩
    by_cases hu : u = t
    · subst hu
      exact ⟨u, hown.2 (.inr hmem)⟩
    · exact ⟨u, by rwa [step_task_of_ne hu] at hmem⟩

/-- After any schedule the index is that of the records offered so far, and each record was
offered or is still to be offered. -/
lemma BringsIn.run (h : w.BringsIn s column type offered) (schedule : List ι) :
    (w.run schedule).BringsIn s column type (offered ++ w.arrivals schedule) ∧
      ∀ a, (∃ u, a ∈ (w.task u).pending) ↔
        a ∈ w.arrivals schedule ∨ ∃ u, a ∈ ((w.run schedule).task u).pending := by
  induction schedule generalizing w offered with
  | nil =>
    refine ⟨by rwa [World.arrivals, List.append_nil], fun a => ?_⟩
    rw [World.arrivals, or_iff_right List.not_mem_nil]
    rfl
  | cons t rest ih =>
    obtain ⟨hlast, hmem⟩ := ih (h.step t).1
    refine ⟨?_, fun a => ?_⟩
    · rw [World.arrivals, ← List.append_assoc]
      exact hlast
    · rw [World.arrivals, List.mem_append, or_assoc, h.mem_step t a, hmem a]
      rfl

end World

/-! ## Executions -/

/-- Calls that are about to take turns, each of them with the records that it brings in. -/
structure World.Starts {ι : Type} (w : World ι) (p : Partition) (calls : ι → Call)
    (batch : ι → List Arrival) : Prop where
  index : w.index = p.index
  task : ∀ t, p.callTask? (calls t) = some (w.task t)
  brings : ∀ t, (calls t).Brings p.settings (batch t)

namespace Partition

variable {p : Partition} {column : String} {type : ValueType}

/-- The task of a call offers the records that the call brings in. -/
lemma callTask?_brings (table : p.settings.ComparesBy column) {call : Call} {task : Task}
    {batch : List Arrival} (h : p.callTask? call = some task)
    (brings : call.Brings p.settings batch) (single : ∀ a ∈ batch, a.IsSingle column type) :
    task.BringsIn p.settings column type ∧ task.pending = batch := by
  cases brings with
  | sealed segment records hkind read =>
    obtain ⟨watermark, gate, -, htask⟩ := callTask?_change h
    dsimp only [task?, SegmentChange.target] at htask
    rw [readAll_of_read (p := { p with watermark, gate }) read] at htask
    cases htask
    exact ⟨⟨rfl, ⟨rfl, plain_terms (p := { p with watermark, gate }) table .sealed⟩,
      fun record hmem => single _ (List.mem_map_of_mem hmem)⟩, rfl⟩
  | empty segment hkind =>
    obtain ⟨watermark, gate, hstart, -⟩ := callTask?_change h
    rw [p.start_of_empty (.add segment) hkind] at hstart
    cases hstart
  | single segment record =>
    obtain ⟨gate, watermark, -, -, rfl⟩ := callTask?_ingest h
    exact ⟨⟨rfl, ⟨rfl, plain_terms (p := { p with gate, watermark }) table .perColumn⟩,
      fun other hmem => List.mem_singleton.1 hmem ▸ single _ List.mem_cons_self⟩, rfl⟩

/-- Records with one column of one type are brought into a partition, by calls one after the
other or by calls that take turns.  What is told apart are the index that is left and the
records in the order of their offers. -/
inductive Execution (p : Partition) (column : String) (type : ValueType) :
    KeyIndex → List Arrival → Prop
  | sequential (calls : List Call) (batches : List (List Arrival))
    (brings : List.Forall₂ (Call.Brings p.settings) calls batches)
    (single : ∀ batch ∈ batches, ∀ a ∈ batch, a.IsSingle column type) :
    Execution p column type (p.run calls).index batches.flatten
  | interleaved {ι : Type} [DecidableEq ι] (w : World ι) (calls : ι → Call)
    (batch : ι → List Arrival) (starts : w.Starts p calls batch)
    (single : ∀ t, ∀ a ∈ batch t, a.IsSingle column type) (schedule : List ι) :
    Execution p column type (w.run schedule).index (w.arrivals schedule)

lemma starts_bringsIn (table : p.settings.ComparesBy column) (works : p.index.Works)
    (empty : p.index.keys = []) {ι : Type} {w : World ι} {calls : ι → Call}
    {batch : ι → List Arrival} (starts : w.Starts p calls batch)
    (single : ∀ t, ∀ a ∈ batch t, a.IsSingle column type) :
    w.BringsIn p.settings column type [] ∧ ∀ t, (w.task t).pending = batch t := by
  have hbrings (t : ι) := callTask?_brings table (starts.task t) (starts.brings t) (single t)
  refine ⟨⟨?_, fun t => (hbrings t).1⟩, fun t => (hbrings t).2⟩
  rw [starts.index]
  exact Converges.of_empty works empty

/-- Every execution from an empty index converges. -/
lemma Execution.converges (table : p.settings.ComparesBy column) (opened : p.gate = {})
    (works : p.index.Works) (empty : p.index.keys = []) {i : KeyIndex} {arrivals : List Arrival}
    (h : p.Execution column type i arrivals) : Converges p.settings column type arrivals i := by
  cases h with
  | sequential calls batches brings single =>
    exact (run_converges table opened (.of_empty works empty) brings single).2
  | interleaved w calls batch starts single schedule =>
    exact ((starts_bringsIn table works empty starts single).1.run schedule).1.index

/-- Into an empty upsert table without retention that compares by one column, records with that
column and values of one type are brought in by additions of sealed segments and by single
records.  No call fails, and no task that takes turns is refused a record; once all tasks are
done, all records were offered.  The entry of a key is that of the last record offered for it
among those with the largest value.  If the values for each key are pairwise different, the
order of the offers does not matter. -/
theorem single_column_converges (type : ValueType) (table : p.settings.ComparesBy column)
    (opened : p.gate = {}) (works : p.index.Works) (empty : p.index.keys = []) :
    (∀ (calls : List Call) (batches : List (List Arrival)),
      List.Forall₂ (Call.Brings p.settings) calls batches →
      (∀ batch ∈ batches, ∀ a ∈ batch, a.IsSingle column type) →
      ∀ before call after, calls = before ++ call :: after → (p.run before).Succeeds call) ∧
    (∀ (ι : Type) [DecidableEq ι] (w : World ι) (calls : ι → Call) (batch : ι → List Arrival),
      w.Starts p calls batch → (∀ t, ∀ a ∈ batch t, a.IsSingle column type) →
      ∀ schedule, (∀ t, ((w.run schedule).task t).isUndoing = false) ∧
        ((∀ t, ((w.run schedule).task t).isDone = true) →
          ∀ a, a ∈ w.arrivals schedule ↔ ∃ t, a ∈ batch t)) ∧
    (∀ i arrivals, p.Execution column type i arrivals →
      ∀ key, LastMaximal p.settings column arrivals key (i.get? key)) ∧
    ∀ i arrivals i' arrivals', p.Execution column type i arrivals →
      p.Execution column type i' arrivals' → (∀ a, a ∈ arrivals ↔ a ∈ arrivals') →
      (∀ a ∈ arrivals, ∀ b ∈ arrivals, a.key p.settings = b.key p.settings →
        a.record.version.value? column = b.record.version.value? column → a = b) →
      ∀ key, i'.get? key = i.get? key := by
  refine ⟨fun calls batches brings single => ?_, ?_, fun i arrivals h => ?_, ?_⟩
  · exact (run_converges table opened (.of_empty works empty) brings single).1
  · intro ι _ w calls batch starts single schedule
    obtain ⟨hw, hpending⟩ := starts_bringsIn table works empty starts single
    obtain ⟨hlast, hmem⟩ := hw.run schedule
    refine ⟨fun t => (hlast.task t).isUndoing, fun done a => ?_⟩
    have hnone : ¬∃ t, a ∈ ((w.run schedule).task t).pending := by
      rintro ⟨t, hpends⟩
      rw [(hlast.task t).pending_of_isDone (done t)] at hpends
      cases hpends
    simp only [hpending] at hmem
    rw [hmem a, or_iff_left hnone]
  · exact (h.converges table opened works empty).held
  · intro i arrivals i' arrivals' h h' same apart key
    exact ((h.converges table opened works empty).held key).unique
      ((h'.converges table opened works empty).held key) same apart

end Partition

namespace Sample

/-- A partition that starts out empty. -/
def blank : Partition := partition { backend := .sorted {} }

/-- A time that is not a number: it is above every other one. -/
def never : Record := record 1 0 (.double ⟨0x7FF8000000000000⟩)

/-- A time before zero, and one after it. -/
def past : Record := record 2 1 (.double ⟨0xBFF0000000000000⟩)

def future : Record := record 1 0 (.double ⟨0x4014000000000000⟩)

/-- One call adds a segment with two keys while another one takes in a record of the first. -/
def arriving : Bool → Call
  | false => .change (.add (segment 1 [never, past]))
  | true => .ingest ⟨2, "s2"⟩ future

def arrivingRecords : Bool → List Arrival
  | false => [⟨⟨1, "s1"⟩, never⟩, ⟨⟨1, "s1"⟩, past⟩]
  | true => [⟨⟨2, "s2"⟩, future⟩]

/-- The single record comes in between the two of the segment. -/
def racing : World Bool where
  index := blank.index
  task
    | false => .offering (blank.offering (.add (segment 1 [])) none) [never, past] [] none
    | true => .offering (blank.singleOffering ⟨2, "s2"⟩) [future] [] none

lemma arriving_brings : ∀ t, (arriving t).Brings blank.settings (arrivingRecords t)
  | false => .sealed (segment 1 [never, past]) [never, past] rfl rfl
  | true => .single ⟨2, "s2"⟩ future

lemma arriving_single : ∀ t, ∀ a ∈ arrivingRecords t, a.IsSingle "at" .double := by
  intro t a hmem
  cases t <;> simp only [arrivingRecords, List.mem_cons, List.not_mem_nil, or_false] at hmem
  · rcases hmem with rfl | rfl <;> exact ⟨_, rfl, rfl⟩
  · subst hmem
    exact ⟨_, rfl, rfl⟩

lemma racing_starts : racing.Starts blank arriving arrivingRecords where
  index := rfl
  task
    | false => rfl
    | true => rfl
  brings := arriving_brings

end Sample

/-- The first key is left to the time that is not a number, whether the other record comes in
before the segment or in the midst of it. -/
theorem single_column_converges_doubles :
    (∀ before call after, [Sample.arriving true, Sample.arriving false] =
      before ++ call :: after → (Sample.blank.run before).Succeeds call) ∧
    (∀ a, a ∈ Sample.racing.arrivals [false, true, false] ↔ ∃ t, a ∈ Sample.arrivingRecords t) ∧
    LastMaximal Sample.settings "at" (Sample.racing.arrivals [false, true, false])
      (Sample.key 1) ((Sample.racing.run [false, true, false]).index.get? (Sample.key 1)) ∧
    ∀ key, (Sample.blank.run [Sample.arriving true, Sample.arriving false]).index.get? key =
      (Sample.racing.run [false, true, false]).index.get? key := by
  have htable : Sample.blank.settings.ComparesBy "at" := ⟨rfl, rfl, rfl⟩
  have hworks : Sample.blank.index.Works := ⟨rfl, fun call hmem => absurd hmem List.not_mem_nil⟩
  obtain ⟨hsucceeds, hoffered, hlargest, hsame⟩ :=
    Partition.single_column_converges .double htable rfl hworks rfl
  have hbrings : List.Forall₂ (Call.Brings Sample.blank.settings)
      [Sample.arriving true, Sample.arriving false]
      [Sample.arrivingRecords true, Sample.arrivingRecords false] :=
    .cons (Sample.arriving_brings true) (.cons (Sample.arriving_brings false) .nil)
  have hsingle : ∀ batch ∈ [Sample.arrivingRecords true, Sample.arrivingRecords false],
      ∀ a ∈ batch, a.IsSingle "at" .double := by
    intro batch hmem
    rcases List.mem_cons.1 hmem with rfl | hmem
    · exact Sample.arriving_single true
    · exact List.mem_singleton.1 hmem ▸ Sample.arriving_single false
  have hturns : Sample.blank.Execution "at" .double _ _ := .interleaved Sample.racing
    Sample.arriving Sample.arrivingRecords Sample.racing_starts Sample.arriving_single
    [false, true, false]
  refine ⟨hsucceeds _ _ hbrings hsingle, ?_, hlargest _ _ hturns _,
    hsame _ _ _ _ hturns (.sequential _ _ hbrings hsingle) ?_ ?_⟩
  · refine (hoffered Bool _ _ _ Sample.racing_starts Sample.arriving_single _).2 fun t => ?_
    cases t <;> rfl
  · exact fun a => (List.Perm.swap ..).mem_iff
  · -- all three values are different
    have hapart : ∀ a ∈ Sample.racing.arrivals [false, true, false],
        ∀ b ∈ Sample.racing.arrivals [false, true, false],
          a.record.version.value? "at" = b.record.version.value? "at" → a = b := by decide
    exact fun a ha b hb _ => hapart a ha b hb

end PartitionKeys

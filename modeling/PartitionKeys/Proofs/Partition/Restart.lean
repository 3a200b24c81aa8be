/-
# The watermark over restarts

Partitions are set up one after another over the same store.  What one of them leaves to the
next is the watermark that was persisted last, not the one that it had last: a sweep that fails
persists nothing, and what came after the last sweep is lost.  A `Lineage` is such a history
with the sweeps in it that have succeeded.  The watermarks that they have persisted never fall,
and no partition has a watermark below any of them; so what was too old for one of the sweeps
is too old for every partition that comes later, as long as the retention is the same.
-/
import PartitionKeys.Proofs.Partition.LargestTime
import PartitionKeys.Proofs.Partition.Skipping
import PartitionKeys.Proofs.Watermark.Files

namespace PartitionKeys

/-- A sweep that has succeeded: the watermark that it has persisted, and the floor that it has
used under the retention of its partition. -/
structure Swept where
  time : Binary64
  ttl : Binary64
  floor : Binary64
deriving DecidableEq, Repr

namespace Partition

variable {p q : Partition}

/-! ## Sweeps and the store -/

/-- The sweep of a call, if it is one and has succeeded. -/
def sweptBy (p : Partition) : Call → List Swept
  | .sweep =>
    match p.sweep.1 with
    | .ok (.swept _ floor) => [⟨p.watermark.time, p.settings.ttl, floor⟩]
    | _ => []
  | _ => []

/-- A store that is out of order has what it had. -/
lemma sweep_store_of_persistFails (h : p.store.persistFails = true) :
    p.sweep.2.store = p.store := by
  have hdone := p.sweep_sweptTo
  have hpersist : p.store.persist p.watermark.time = (.error WatermarkStore.outOfOrder, p.store) :=
    if_pos h
  generalize p.sweep.1 = result at hdone
  generalize p.sweep.2 = q at hdone ⊢
  cases hdone with
  | lasting => rfl
  | stopped => rfl
  | failed e store ttlEnabled refused =>
    rw [hpersist] at refused
    exact (congrArg Prod.snd refused).symm
  | swept store log ttlEnabled persisted =>
    rw [hpersist] at persisted
    cases persisted

/-- A partition that has not been stopped has nobody inside. -/
def Resting (p : Partition) : Prop := p.gate.stopped = false → p.gate = {}

lemma Resting.call (h : p.Resting) (call : Call) : (p.call call).Resting := by
  intro hopen
  cases hstopped : p.gate.stopped with
  | true =>
    rw [(call_intact hstopped call).1] at hopen
    cases hopen
  | false =>
    have opened := h hstopped
    refine (call_unstopped opened fun hstop => ?_).1
    subst hstop
    rw [Partition.call, stop_of_open opened] at hopen
    cases hopen

/-! ## A record that is too old -/

/-- An open partition skips a record that is expired. -/
lemma ingest_expired (opened : p.gate = {}) {segment : SegmentId} {record : Record}
    {time : Binary64} (dated : p.settings.timeColumn.bind record.version.time? = some time)
    (h : p.Expired time) :
    (p.ingest segment record).1 = .ok (.skipped (.outOfTtl time p.floor)) := by
  have hsame : p.observe time = p := by rw [observe, h.observe_watermark]
  have hcheck : p.checkRecordTime record = (some (.outOfTtl time p.floor), p) := by
    unfold checkRecordTime
    rw [if_pos h.ttlEnabled, dated]
    dsimp only
    rw [hsame, if_pos h.below]
  rw [ingest_of_enter (enter?_of_open opened), hcheck]

/-! ## Setting up over a store -/

/-- A partition has just been set up over a store; if its keys do not expire, the store has been
able to forget its watermark. -/
structure SetUp (store : WatermarkStore) (p : Partition) : Prop where
  built : ∃ settings index choice metrics,
    build settings index choice metrics = .ok p ∧ choice.store p.settings = store
  forgets : p.settings.ttlEnabled = false → store.delete.1 = .ok ()

namespace SetUp

variable {store : WatermarkStore} {value : Option Binary64}

lemma gate (h : SetUp store p) : p.gate = {} := by
  obtain ⟨settings, index, choice, metrics, hbuild, -⟩ := h.built
  exact (built_of_build hbuild).gate

lemma watermark_eq (h : SetUp store p) : p.watermark = (firstWatermark p.settings store).1 := by
  obtain ⟨settings, index, choice, metrics, hbuild, rfl⟩ := h.built
  exact (built_of_build hbuild).watermark

lemma store_eq (h : SetUp store p) : p.store = (firstWatermark p.settings store).2.1 := by
  obtain ⟨settings, index, choice, metrics, hbuild, rfl⟩ := h.built
  exact (built_of_build hbuild).store

/-- With retention, the first watermark is what the store has. -/
lemma loaded (h : SetUp store p) (has : store.Has value)
    (ttlEnabled : p.settings.ttlEnabled = true) :
    p.watermark = ⟨value.getD .zero⟩ ∧ p.store = store := by
  have hload := has Watermark.unset.time
  rw [h.watermark_eq, h.store_eq, firstWatermark, if_pos ttlEnabled, hload]
  exact ⟨rfl, rfl⟩

/-- Without retention, there is no watermark, and from now on the store has none either. -/
lemma forgotten (h : SetUp store p) (has : store.Has value)
    (lasting : p.settings.ttlEnabled = false) : p.watermark = .unset ∧ p.store.Has none := by
  have hdelete := h.forgets lasting
  rw [h.watermark_eq, h.store_eq, firstWatermark, if_neg (by simp [lasting])]
  rcases hresult : store.delete with ⟨_ | _, after⟩
  · rw [hresult] at hdelete
    cases hdelete
  · exact ⟨rfl, has.delete hresult⟩

end SetUp

/-! ## Lineages -/

/-- The partitions that are set up one after another over a store that has nothing at first,
each with any calls: the one there is now, and the sweeps that have succeeded since keys last
did not expire.  A sweep that fails leaves the store with what it had, and so does whatever
else happens to the store. -/
inductive Lineage : Partition → List Swept → Prop
  | first {store : WatermarkStore} {p : Partition} (setUp : SetUp store p)
    (empty : store.Has none) : Lineage p []
  | next {p q : Partition} {swept : List Swept} (h : Lineage p swept) (setUp : SetUp p.store q) :
    Lineage q (if q.settings.ttlEnabled then swept else [])
  | call {p : Partition} {swept : List Swept} (h : Lineage p swept) (call : Call)
    (harmless : call = .sweep → ∀ e, p.sweep.1 = .error e →
      ∀ default, p.sweep.2.store.load default = p.store.load default) :
    Lineage (p.call call) (swept ++ p.sweptBy call)
  | elsewhere {p : Partition} {swept : List Swept} (h : Lineage p swept) (store : WatermarkStore)
    (same : ∀ default, store.load default = p.store.load default) :
    Lineage { p with store } swept

/-- The store gets out of order, or in order again. -/
lemma Lineage.withPersistFails {swept : List Swept} (h : Lineage p swept) (fails : Bool) :
    Lineage { p with store := { p.store with persistFails := fails } } swept :=
  h.elsewhere { p.store with persistFails := fails } fun _ => rfl

/-- What a lineage comes to: the store has the watermark that was persisted last, the partition
has one that is not below any of them, and they have never fallen. -/
structure Remembers (p : Partition) (swept : List Swept) : Prop where
  stored : p.store.Has (swept.getLast?.map Swept.time)
  number : p.watermark.time.isNaN = false
  below : ∀ sweep ∈ swept, sweep.time ≤ p.watermark.time
  ascending : swept.Pairwise fun earlier later => earlier.time ≤ later.time
  floors : ∀ sweep ∈ swept, sweep.floor = sweep.time - sweep.ttl
  lasting : p.settings.ttlEnabled = false → swept = []
  resting : p.Resting

/-- Nothing has been persisted yet. -/
lemma Remembers.nil (stored : p.store.Has none) (number : p.watermark.time.isNaN = false)
    (resting : p.Resting) : p.Remembers [] where
  stored := stored
  number := number
  below _ hmem := nomatch hmem
  ascending := .nil
  floors _ hmem := nomatch hmem
  lasting _ := rfl
  resting := resting

lemma SetUp.remembers_lasting {store : WatermarkStore} {value : Option Binary64}
    (h : SetUp store p) (has : store.Has value) (lasting : p.settings.ttlEnabled = false) :
    p.Remembers [] := by
  obtain ⟨hunset, hnone⟩ := h.forgotten has lasting
  refine .nil hnone ?_ fun _ => h.gate
  rw [hunset]
  rfl

namespace Remembers

variable {swept : List Swept}

/-- The watermark that was persisted last is not below the others. -/
lemma le_last (h : p.Remembers swept) {last : Swept} (hlast : swept.getLast? = some last) :
    ∀ sweep ∈ swept, sweep.time ≤ last.time := by
  obtain ⟨rest, rfl⟩ := List.getLast?_eq_some_iff.1 hlast
  intro sweep hmem
  rcases List.mem_append.1 hmem with hrest | hone
  · exact (List.pairwise_append.1 h.ascending).2.2 sweep hrest last (List.mem_singleton_self last)
  · obtain rfl := List.mem_singleton.1 hone
    have hnumber := (h.below sweep hmem).1
    exact ⟨hnumber, hnumber, le_refl _⟩

/-- A partition with retention starts from the watermark that was persisted last. -/
lemma next (h : p.Remembers swept) (setUp : SetUp p.store q)
    (ttlEnabled : q.settings.ttlEnabled = true) : q.Remembers swept := by
  obtain ⟨hwatermark, hstore⟩ := setUp.loaded h.stored ttlEnabled
  cases hlast : swept.getLast? with
  | none =>
    obtain rfl := List.getLast?_eq_none_iff.1 hlast
    refine .nil ?_ ?_ fun _ => setUp.gate
    · rw [hstore]
      exact h.stored
    · rw [hwatermark]
      rfl
  | some last =>
    rw [hlast] at hwatermark
    have hmem := List.mem_of_getLast? hlast
    refine ⟨?_, ?_, ?_, h.ascending, h.floors, ?_, fun _ => setUp.gate⟩
    · rw [hstore]
      exact h.stored
    · rw [hwatermark]
      exact (h.below last hmem).1
    · rw [hwatermark]
      exact h.le_last hlast
    · intro lasting
      rw [ttlEnabled] at lasting
      cases lasting

/-- A call that leaves the store with what it has. -/
lemma call_of_same (h : p.Remembers swept) (call : Call)
    (same : ∀ default, (p.call call).store.load default = p.store.load default) :
    (p.call call).Remembers swept := by
  have hle := (p.call_observed call).le h.number
  refine ⟨fun default => ?_, hle.2.1, fun sweep hmem => ?_, h.ascending, h.floors,
    fun lasting => ?_, h.resting.call call⟩
  · rw [same, h.stored default]
  · exact Binary64.le_trans (h.below sweep hmem) hle
  · rw [call_settings] at lasting
    exact h.lasting lasting

/-- A sweep that succeeds persists the watermark. -/
lemma sweep (h : p.Remembers swept) (ttlEnabled : p.settings.ttlEnabled = true)
    (persisted : p.store.persist p.watermark.time = (.ok (), p.sweep.2.store)) :
    p.sweep.2.Remembers (swept ++ [⟨p.watermark.time, p.settings.ttl, p.floor⟩]) where
  stored := by
    rw [List.getLast?_concat]
    exact h.stored.persist persisted
  number := by
    rw [sweep_watermark]
    exact h.number
  below sweep hmem := by
    rw [sweep_watermark]
    rcases List.mem_append.1 hmem with hmem | hmem
    · exact h.below sweep hmem
    · obtain rfl := List.mem_singleton.1 hmem
      exact ⟨h.number, h.number, le_refl _⟩
  ascending := by
    refine List.pairwise_append.2 ⟨h.ascending, List.pairwise_singleton _ _, ?_⟩
    intro sweep hmem last hlast
    obtain rfl := List.mem_singleton.1 hlast
    exact h.below sweep hmem
  floors sweep hmem := by
    rcases List.mem_append.1 hmem with hmem | hmem
    · exact h.floors sweep hmem
    · obtain rfl := List.mem_singleton.1 hmem
      rfl
  lasting lasting := by
    rw [sweep_settings, ttlEnabled] at lasting
    cases lasting
  resting := h.resting.call .sweep

lemma call (h : p.Remembers swept) (call : Call)
    (harmless : call = .sweep → ∀ e, p.sweep.1 = .error e →
      ∀ default, p.sweep.2.store.load default = p.store.load default) :
    (p.call call).Remembers (swept ++ p.sweptBy call) := by
  by_cases hsweep : call = .sweep
  · subst hsweep
    have hdone := p.sweep_sweptTo
    have hsame := h.call_of_same .sweep
    have hsucceeded := h.sweep
    have hfailed := harmless rfl
    unfold sweptBy
    change (∀ default, p.sweep.2.store.load default = p.store.load default) →
      p.sweep.2.Remembers swept at hsame
    change p.sweep.2.Remembers _
    generalize p.sweep.1 = result at hdone hfailed ⊢
    generalize p.sweep.2 = q at hdone hfailed hsame hsucceeded ⊢
    cases hdone with
    | lasting =>
      rw [List.append_nil]
      exact hsame fun _ => rfl
    | stopped =>
      rw [List.append_nil]
      exact hsame fun _ => rfl
    | failed e =>
      rw [List.append_nil]
      exact hsame (hfailed _ rfl)
    | swept store log ttlEnabled persisted => exact hsucceeded ttlEnabled persisted
  · have hnone : p.sweptBy call = [] := by
      cases call <;> first | rfl | exact absurd rfl hsweep
    rw [hnone, List.append_nil]
    exact h.call_of_same call fun default => by rw [call_store _ hsweep]

/-- What was too old for a sweep is too old for an open partition with the same retention. -/
lemma expired (h : p.Remembers swept) {sweep : Swept} (hmem : sweep ∈ swept)
    (hsame : sweep.ttl = p.settings.ttl) {time : Binary64} (hbelow : time < sweep.floor) :
    p.Expired time := by
  have ttlEnabled : p.settings.ttlEnabled = true := by
    by_contra hlasting
    rw [h.lasting (Bool.eq_false_iff.2 hlasting)] at hmem
    cases hmem
  rw [h.floors sweep hmem, hsame] at hbelow
  have hfinite := Binary64.isFinite_of_lt_sub (of_decide_eq_true ttlEnabled) hbelow
  have hfloor : sweep.time - p.settings.ttl ≤ p.floor :=
    Binary64.sub_le_sub_right (h.below sweep hmem) hfinite
  exact ⟨ttlEnabled, Binary64.lt_of_lt_of_le hbelow hfloor⟩

end Remembers

lemma Lineage.remembers {swept : List Swept} (h : Lineage p swept) : p.Remembers swept := by
  induction h with
  | first setUp empty =>
    rename_i p
    cases hlasting : p.settings.ttlEnabled with
    | false => exact setUp.remembers_lasting empty hlasting
    | true =>
      obtain ⟨hwatermark, hstore⟩ := setUp.loaded empty hlasting
      refine .nil ?_ ?_ fun _ => setUp.gate
      · rw [hstore]
        exact empty
      · rw [hwatermark]
        rfl
  | next h setUp ih =>
    rename_i p q swept
    cases hlasting : q.settings.ttlEnabled with
    | false => exact setUp.remembers_lasting ih.stored hlasting
    | true => exact ih.next setUp hlasting
  | call h call harmless ih => exact ih.call call harmless
  | elsewhere h store same ih =>
    exact ⟨fun default => (same default).trans (ih.stored default), ih.number, ih.below,
      ih.ascending, ih.floors, ih.lasting, ih.resting⟩

/-- A partition whose keys do not expire leaves nothing to the next one. -/
lemma SetUp.run_lasting {store : WatermarkStore} {value : Option Binary64} (h : SetUp store p)
    (has : store.Has value) (lasting : p.settings.ttlEnabled = false) (calls : List Call) :
    (p.run calls).store.Has none := by
  have hrun : (p.run calls).Remembers [] ∧ (p.run calls).settings = p.settings := by
    refine run_induction (motive := fun q => q.Remembers [] ∧ q.settings = p.settings) ?_
      ⟨h.remembers_lasting has lasting, rfl⟩
    rintro q call - ⟨hq, hsettings⟩
    refine ⟨?_, (q.call_settings call).trans hsettings⟩
    have hoff : q.settings.ttlEnabled = false := by rw [hsettings, lasting]
    refine hq.call_of_same call fun default => ?_
    by_cases hsweep : call = .sweep
    · subst hsweep
      rw [Partition.call, Partition.sweep, if_neg (by simp [hoff])]
    · rw [call_store _ hsweep]
  exact hrun.1.stored

/-- **The watermark survives restarts.**  In a lineage of partitions over one store
* the watermarks that sweeps have persisted never fall;
* the first partition starts unset, and one that is set up next, with retention, starts from
  the watermark that was persisted last, or unset if there is none;
* after a partition whose keys do not expire, whatever is called there, the next one starts
  unset;
* an open partition skips every record whose time is below the floor of one of the sweeps, if
  the retention is the same. -/
theorem watermark_survives_restarts {swept : List Swept} (h : Lineage p swept) :
    (swept.Pairwise fun earlier later => earlier.time ≤ later.time) ∧
    (∀ store first, store.Has none → SetUp store first → first.watermark = .unset) ∧
    (∀ q, SetUp p.store q → q.settings.ttlEnabled = true →
      q.watermark = ⟨(swept.getLast?.map Swept.time).getD .zero⟩) ∧
    (∀ q, SetUp p.store q → q.settings.ttlEnabled = false → ∀ calls r,
      SetUp (q.run calls).store r → r.settings.ttlEnabled = true → r.watermark = .unset) ∧
    ∀ sweep ∈ swept, sweep.ttl = p.settings.ttl → p.gate.stopped = false →
      ∀ segment record time, p.settings.timeColumn.bind record.version.time? = some time →
        time < sweep.floor →
        (p.ingest segment record).1 = .ok (.skipped (.outOfTtl time p.floor)) := by
  have hremembers := h.remembers
  refine ⟨hremembers.ascending, fun store first empty setUp => ?_,
    fun q setUp ttlEnabled => ?_, ?_, ?_⟩
  · cases hlasting : first.settings.ttlEnabled with
    | false => exact (setUp.forgotten empty hlasting).1
    | true => exact (setUp.loaded empty hlasting).1
  · exact (setUp.loaded hremembers.stored ttlEnabled).1
  · intro q setUp lasting calls r setUp' ttlEnabled
    have hnone := setUp.run_lasting hremembers.stored lasting calls
    exact (setUp'.loaded hnone ttlEnabled).1
  · intro sweep hmem hsame hopen segment record time dated hbelow
    exact ingest_expired (hremembers.resting hopen) dated (hremembers.expired hmem hsame hbelow)

end Partition

namespace Sample

/-- A partition over a store whose file is not there yet. -/
def elder : Partition :=
  { fading with
    store := { medium := .file ⟨["", "watermark"]⟩ .empty }
    log := [.opened "orders" 0 .upsert] }

/-- It is swept at the watermark 50, and then sees the time 70 while its store is out of order. -/
def bereft : Partition :=
  let p := ((elder.call (.change (.add aging))).call .sweep).call
    (.ingest ⟨3, "s3"⟩ (record 4 0 (.int 70)))
  { p with store := { p.store with persistFails := true } }

/-- The partition that comes next. -/
def heir : Partition :=
  { elder with
    watermark := ⟨.ofInt 50⟩
    store := bereft.sweep.2.store }

end Sample

open Sample in
/-- The sweep at 70 fails, so that the next partition starts at 50; it skips what is older than
40. -/
theorem watermark_survives_restarts_bereft :
    Partition.Lineage bereft.sweep.2 [⟨.ofInt 50, expiring.ttl, .ofInt 40⟩] ∧
      bereft.sweep.2.watermark = ⟨.ofInt 70⟩ ∧
      Partition.SetUp bereft.sweep.2.store heir ∧ heir.watermark = ⟨.ofInt 50⟩ ∧
      (heir.ingest ⟨4, "s4"⟩ (record 5 0 (.int 39))).1 =
        .ok (.skipped (.outOfTtl (.ofInt 39) heir.floor)) := by
  have ttlEnabled : expiring.ttlEnabled = true := by decide +kernel
  have setUp : Partition.SetUp elder.store elder :=
    ⟨⟨expiring, { backend := .unordered {} }, .given elder.store, .off, rfl, rfl⟩,
      fun lasting => absurd (ttlEnabled.symm.trans lasting) Bool.noConfusion⟩
  have setUp' : Partition.SetUp bereft.sweep.2.store heir :=
    ⟨⟨expiring, { backend := .unordered {} }, .given bereft.sweep.2.store, .off,
      by decide +kernel, rfl⟩,
      fun lasting => absurd (ttlEnabled.symm.trans lasting) Bool.noConfusion⟩
  have hswept : (elder.call (.change (.add aging))).sweptBy .sweep =
      [⟨.ofInt 50, expiring.ttl, .ofInt 40⟩] := by decide +kernel
  have hunswept : bereft.sweptBy .sweep = [] := by decide +kernel
  have lineage : Partition.Lineage bereft.sweep.2 [⟨.ofInt 50, expiring.ttl, .ofInt 40⟩] := by
    have hfilled : Partition.Lineage (elder.call (.change (.add aging))) [] :=
      .call (.first setUp fun _ => rfl) (.change (.add aging)) nofun
    have hanswer : (elder.call (.change (.add aging))).sweep.1 = .ok (.swept 1 (.ofInt 40)) := by
      decide +kernel
    have hsucceeded := hfilled.call .sweep fun _ e hfailed => nomatch hanswer.symm.trans hfailed
    have hseen := hsucceeded.call (.ingest ⟨3, "s3"⟩ (record 4 0 (.int 70))) nofun
    have hbereft : Partition.Lineage bereft _ := hseen.withPersistFails true
    have hrefused : bereft.store.persistFails = true := rfl
    have hfailed := hbereft.call .sweep fun _ _ _ _ => by
      rw [Partition.sweep_store_of_persistFails hrefused]
    rw [hswept, hunswept] at hfailed
    exact hfailed
  obtain ⟨-, -, hnext, -, -⟩ := Partition.watermark_survives_restarts lineage
  obtain ⟨-, -, -, -, hskips⟩ := Partition.watermark_survives_restarts (lineage.next setUp')
  refine ⟨lineage, by decide +kernel, setUp', hnext heir setUp' ttlEnabled, ?_⟩
  exact hskips _ List.mem_cons_self rfl rfl _ _ (.ofInt 39) rfl (by decide +kernel)

end PartitionKeys

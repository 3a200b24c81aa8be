/-
# What a sweep drops

An offer passes over an entry whose time is below the floor, and a sweep keeps an entry whose
time is not below the floor.  For numbers these are opposites.  A time that is no number is
neither below the floor nor at or above it, and nothing is at or above a floor that is no
number; such entries are dropped without being stale.  What a sweep has kept, the next one keeps
too.
-/
import PartitionKeys.Proofs.Partition.FirstWatermark
import PartitionKeys.Proofs.Partition.Hashing
import PartitionKeys.Proofs.Partition.Inheritance

namespace PartitionKeys

lemma Binary64.not_le_iff_lt_or_isNaN {x y : Binary64} :
    ¬y ≤ x ↔ x < y ∨ x.isNaN = true ∨ y.isNaN = true := by
  rw [le_def, lt_def]
  cases x.isNaN <;> cases y.isNaN <;> simp

/-- The two orders are opposites on numbers and nowhere else. -/
lemma Binary64.not_le_iff_lt_iff {x y : Binary64} :
    (¬y ≤ x ↔ x < y) ↔ x.isNaN = false ∧ y.isNaN = false := by
  rw [le_def, lt_def]
  cases x.isNaN <;> cases y.isNaN <;> simp

namespace KeyIndex

variable {i : KeyIndex}

lemma WellFormed.sweep (h : i.WellFormed) (floor : Binary64) : (i.sweep floor).2.WellFormed :=
  wellFormed_kept.sweep i floor h

/-- A sweep counts the keys that it takes away. -/
lemma WellFormed.sweep_fst_eq_ncard (h : i.WellFormed) (floor : Binary64) :
    (i.sweep floor).1 = (i.heldKeys \ (i.sweep floor).2.heldKeys).ncard := by
  have hsubset : (i.sweep floor).2.heldKeys ⊆ i.heldKeys := by
    intro key hkey
    rw [heldKeys, Set.mem_ofPred_eq, get?_sweep h, Option.isSome_filter] at hkey
    exact Option.isSome_of_any hkey
  have hsize := i.sweep_fst_add_size floor
  rw [Set.ncard_sdiff hsubset (finite_heldKeys _), h.ncard_heldKeys,
    (h.sweep floor).ncard_heldKeys]
  omega

/-- A second sweep keeps what the first one has kept. -/
lemma WellFormed.get?_sweep_sweep (h : i.WellFormed) (floor : Binary64) :
    ((i.sweep floor).2.sweep floor).2.get? = (i.sweep floor).2.get? := by
  funext key
  rw [get?_sweep (h.sweep floor), get?_sweep h, Option.filter_filter]
  simp

lemma WellFormed.sweep_sweep_fst (h : i.WellFormed) (floor : Binary64) :
    ((i.sweep floor).2.sweep floor).1 = 0 := by
  have hheld : ((i.sweep floor).2.sweep floor).2.heldKeys = (i.sweep floor).2.heldKeys := by
    rw [heldKeys, heldKeys, h.get?_sweep_sweep]
  rw [(h.sweep floor).sweep_fst_eq_ncard, hheld, Set.sdiff_self, Set.ncard_empty]

end KeyIndex

namespace Partition

variable {p : Partition}

/-- A sweep that is let in and can persist the watermark answers what it has dropped. -/
lemma sweep_fst_of_persist (ttlEnabled : p.settings.ttlEnabled = true) {gate : Gate}
    (entered : p.gate.enter? = some gate)
    (persists : (p.store.persist p.watermark.time).1 = .ok ()) :
    p.sweep.1 = .ok (.swept (p.index.sweep p.floor).1 p.floor) := by
  have hdone := p.sweep_sweptTo
  generalize p.sweep.1 = result at hdone ⊢
  generalize p.sweep.2 = q at hdone
  cases hdone with
  | lasting ttlDisabled => cases ttlEnabled.symm.trans ttlDisabled
  | stopped log outside => cases entered.symm.trans outside
  | failed e store _ refused =>
    rw [refused] at persists
    cases persists
  | swept => rfl

lemma floor_sweep (p : Partition) : p.sweep.2.floor = p.floor := by
  unfold floor
  rw [sweep_watermark, sweep_settings]

lemma terms_isStale (ttlEnabled : p.settings.ttlEnabled = true) (rule : ComparisonRule)
    (replacing : Option SegmentId) (entry : Entry) :
    (p.terms rule replacing).isStale entry = true ↔ entry.time < p.floor := by
  simp [terms, Terms.isStale, ttlEnabled]

variable {q : Partition} {gate : Gate}

/-- An entry is dropped exactly if its time is not at or above the floor. -/
lemma get?_sweep_eq_none_iff (wellFormed : q.index.WellFormed)
    (ttlEnabled : q.settings.ttlEnabled = true) (entered : q.gate.enter? = some gate)
    {key : IndexKey} {entry : Entry} (held : q.index.get? key = some entry) :
    q.sweep.2.index.get? key = none ↔ ¬q.floor ≤ entry.time := by
  rw [sweep_index_of_enter ttlEnabled entered, KeyIndex.get?_sweep wellFormed, held]
  simp

/-- **What a sweep drops.**  A sweep of a partition with retention that is let in and persists
the watermark counts the keys that it drops and leaves all other entries as they are.  It drops
an entry exactly if it is stale, or its time or the floor is no number.  So it drops exactly the
stale entries if and only if the times of all entries are numbers and so is the floor, where
there is an entry at all.  A second sweep drops nothing. -/
theorem sweep_drops_stale_iff (empty : p.index.keys = []) {calls : List Call}
    (run : p.run calls = q) (ttlEnabled : q.settings.ttlEnabled = true)
    (entered : q.gate.enter? = some gate)
    (persists : (q.store.persist q.watermark.time).1 = .ok ())
    (persistsAgain : (q.sweep.2.store.persist q.watermark.time).1 = .ok ())
    (rule : ComparisonRule) (replacing : Option SegmentId) :
    q.sweep.1 =
      .ok (.swept (q.index.heldKeys \ q.sweep.2.index.heldKeys).ncard q.floor) ∧
    (∀ key, q.sweep.2.index.get? key = q.index.get? key ∨ q.sweep.2.index.get? key = none) ∧
    (∀ key entry, q.index.get? key = some entry →
      (q.sweep.2.index.get? key = none ↔ (q.terms rule replacing).isStale entry = true ∨
        entry.time.isNaN = true ∨ q.floor.isNaN = true)) ∧
    ((∀ key entry, q.index.get? key = some entry →
        (q.sweep.2.index.get? key = none ↔ (q.terms rule replacing).isStale entry = true)) ↔
      ∀ key entry, q.index.get? key = some entry →
        entry.time.isNaN = false ∧ q.floor.isNaN = false) ∧
    q.sweep.2.sweep.1 = .ok (.swept 0 q.floor) ∧
    q.sweep.2.sweep.2.index.get? = q.sweep.2.index.get? := by
  have wellFormed : q.index.WellFormed := by
    rw [← run]
    exact wellFormed_run empty calls
  have hindex := sweep_index_of_enter ttlEnabled entered
  have hdropped : ∀ key entry, q.index.get? key = some entry →
      (q.sweep.2.index.get? key = none ↔ (q.terms rule replacing).isStale entry = true ∨
        entry.time.isNaN = true ∨ q.floor.isNaN = true) := by
    intro key entry held
    rw [get?_sweep_eq_none_iff wellFormed ttlEnabled entered held, terms_isStale ttlEnabled,
      Binary64.not_le_iff_lt_or_isNaN]
  have hagree : ∀ key entry, q.index.get? key = some entry →
      ((q.sweep.2.index.get? key = none ↔ (q.terms rule replacing).isStale entry = true) ↔
        entry.time.isNaN = false ∧ q.floor.isNaN = false) := by
    intro key entry held
    rw [get?_sweep_eq_none_iff wellFormed ttlEnabled entered held, terms_isStale ttlEnabled,
      Binary64.not_le_iff_lt_iff]
  -- the second sweep finds the same gate and the same floor
  have entered' : q.sweep.2.gate.enter? = some gate := by rwa [sweep_gate]
  have ttlEnabled' : q.sweep.2.settings.ttlEnabled = true := by rwa [sweep_settings]
  have persists' : (q.sweep.2.store.persist q.sweep.2.watermark.time).1 = .ok () := by
    rwa [sweep_watermark]
  have hagain : q.sweep.2.sweep.2.index.get? = q.sweep.2.index.get? := by
    rw [sweep_index_of_enter ttlEnabled' entered', floor_sweep, hindex]
    exact wellFormed.get?_sweep_sweep q.floor
  refine ⟨?_, fun key => ?_, hdropped,
    ⟨fun h key entry held => (hagree key entry held).1 (h key entry held),
      fun h key entry held => (hagree key entry held).2 (h key entry held)⟩, ?_, hagain⟩
  · rw [sweep_fst_of_persist ttlEnabled entered persists, wellFormed.sweep_fst_eq_ncard, hindex]
  · rw [hindex, KeyIndex.get?_sweep wellFormed]
    cases q.index.get? key with
    | none => exact .inl rfl
    | some entry =>
      by_cases hle : q.floor ≤ entry.time
      · exact .inl (Option.filter_some_pos (decide_eq_true hle))
      · exact .inr (by simp [hle])
  · rw [sweep_fst_of_persist ttlEnabled' entered' persists', floor_sweep, hindex,
      wellFormed.sweep_sweep_fst]

end Partition

namespace Sample

/-- A partition with a key that is expired, one that is not, and one whose time is no number. -/
def blurred : Partition :=
  fading.run [.ingest ⟨1, "s1"⟩ (record 1 0 (.double (.ofInt 5))),
    .ingest ⟨1, "s1"⟩ (record 2 1 (.double (.ofInt 50))),
    .ingest ⟨1, "s1"⟩ (record 3 2 (.double .nan))]

/-- A partition with a key whose time is no number, and nothing else. -/
def numberless : Partition := fading.run [.ingest ⟨1, "s1"⟩ (record 1 0 (.double .nan))]

end Sample

open Sample in
/-- Two of three keys are dropped, one since it is stale and one since its time is no number. -/
theorem sweep_drops_stale_iff_blurred :
    blurred.settings.ttlEnabled = true ∧ (∃ gate, blurred.gate.enter? = some gate) ∧
    (blurred.index.heldKeys \ blurred.sweep.2.index.heldKeys).ncard = 2 ∧
    blurred.sweep.2.index.get? (key 3) = none ∧
    blurred.sweep.2.sweep.1 = .ok (.swept 0 (.ofInt 40)) := by
  have empty : fading.index.keys = [] := rfl
  have ttlEnabled : blurred.settings.ttlEnabled = true := by decide +kernel
  have entered : blurred.gate.enter? = some { pending := 2 } := by decide +kernel
  have hfloor : blurred.floor = .ofInt 40 := by decide +kernel
  have held : ∃ entry, blurred.index.get? (key 3) = some entry ∧ entry.time.isNaN = true :=
    ⟨.of ⟨⟨1, "s1"⟩, 2⟩ ⟨[("at", .full (.double .nan))]⟩ (some "at"), by decide +kernel,
      by decide +kernel⟩
  have hsweep : blurred.sweep.1 = .ok (.swept 2 (.ofInt 40)) := by decide +kernel
  obtain ⟨hcount, -, hdropped, -, hagain, -⟩ := Partition.sweep_drops_stale_iff (q := blurred)
    empty rfl ttlEnabled entered (by decide +kernel) (by decide +kernel) .perColumn none
  refine ⟨ttlEnabled, ⟨_, entered⟩, ?_, ?_, hfloor ▸ hagain⟩
  · exact (SweepOutcome.swept.inj (Except.ok.inj (hsweep.symm.trans hcount))).1.symm
  · obtain ⟨entry, hentry, hnan⟩ := held
    exact (hdropped (key 3) entry hentry).2 (.inr (.inl hnan))

open Sample in
/-- The only key is not stale, since its time is below nothing, and the sweep drops it. -/
theorem sweep_can_drop_a_live_key :
    ∃ entry, numberless.index.get? (key 1) = some entry ∧
      (numberless.terms .perColumn none).isStale entry = false ∧
      numberless.sweep.1 = .ok (.swept 1 numberless.floor) ∧
      numberless.sweep.2.index.get? (key 1) = none :=
  ⟨.of ⟨⟨1, "s1"⟩, 0⟩ ⟨[("at", .full (.double .nan))]⟩ (some "at"), by decide +kernel,
    by decide +kernel, by decide +kernel, by decide +kernel⟩

end PartitionKeys

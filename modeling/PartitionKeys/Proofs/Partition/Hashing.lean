/-
# Hashing keys cannot be seen

A partition may hold its entries under digests of their keys.  As long as no two keys that it
comes across have the same digest, nobody can tell: next to it runs the same partition with whole
keys, and whatever is called, both answer and report the same, count as many keys, and hold the
same entry for each primary key.  Only an index that holds nothing else has as many keys in both
ways, so that the two are compared from an empty index on.
-/
import PartitionKeys.Proofs.Partition.Counting
import PartitionKeys.Proofs.Partition.Counterparts

namespace PartitionKeys

/-! ## Settings that differ in how keys are held -/

/-- The same settings but for how keys are held. -/
def Settings.withHash (s : Settings) (hash : KeyHash) : Settings := { s with hash }

/-- What is filled in, and whether settings are refused, does not depend on how keys are held. -/
lemma Settings.checked_withHash (s : Settings) (hash : KeyHash) :
    (s.withHash hash).checked = s.checked.map fun t => t.withHash hash := by
  obtain ⟨table, partition, kind, keyColumns, comparisonColumns, ttl, timeColumn, directory, _⟩ := s
  unfold withHash checked
  dsimp only
  split
  · rfl
  split
  · rfl
  cases kind with
  | upsert =>
    cases comparisonColumns with
    | nil => rfl
    | cons first rest =>
      unfold checkUpsert
      dsimp only
      split
      · -- a time column has been filled in
        simp only [bind, Except.bind, Option.isNone_some, Bool.and_false, Bool.false_eq_true,
          if_false]
        rfl
      · rfl
  | dedup =>
    unfold fillDedup
    simp only [bind, Except.bind, ttlEnabled]
    split <;> split <;> rfl

lemma Settings.hash_of_checked {s t : Settings} (h : s.checked = .ok t) : t.hash = s.hash := by
  have hsame : s.checked = s.checked.map fun t => t.withHash s.hash := s.checked_withHash s.hash
  rw [h, Except.map] at hsame
  rw [Except.ok.inj hsame]
  rfl

lemma KeyHash.whole_injOn (keys : Set PrimaryKey) : Set.InjOn KeyHash.whole.apply keys :=
  fun _ _ _ _ h => IndexKey.whole.inj h

/-- Ways to hold keys that keep all keys apart are alike. -/
lemma KeyHash.alike_of_injOn {hash other : KeyHash} {keys : Set PrimaryKey}
    (h : Set.InjOn hash.apply keys) (h' : Set.InjOn other.apply keys) : hash.Alike other keys :=
  fun _ ha _ hb => (h'.eq_iff ha hb).trans (h.eq_iff ha hb).symm

/-! ## Indexes that hold known keys -/

namespace KeyIndex

/-- A sweep counts what it drops. -/
lemma sweep_fst_add_size (i : KeyIndex) (floor : Binary64) :
    (i.sweep floor).1 + (i.sweep floor).2.size = i.size := by
  obtain ⟨backend, _, _, _, _⟩ := i
  cases backend with
  | sorted i => exact Nat.sub_add_cancel (List.length_filter_le _ _)
  | unordered i =>
    have hsplit := i.entries.length_eq_countP_add_countP fun held =>
      !decide (floor ≤ held.2.time)
    simp only [KeyIndex.sweep, size, Backend.sweep, Backend.size, UnorderedIndex.sweep,
      UnorderedIndex.size, Prod.map, id, ← List.countP_eq_length_filter]
    rw [hsplit]
    congr 2
    funext held
    simp

/-- A well-formed index that holds keys of a set and nothing else. -/
structure Keyed (hash : KeyHash) (keys : Set PrimaryKey) (i : KeyIndex) : Prop where
  wellFormed : i.WellFormed
  held : i.heldKeys ⊆ hash.apply '' keys

variable {hash other : KeyHash} {keys : Set PrimaryKey} {i j : KeyIndex}

/-- Where no two keys are held as one, the keys can be counted themselves. -/
lemma Keyed.size_eq (h : Keyed hash keys i) (injective : Set.InjOn hash.apply keys) :
    i.size = {key ∈ keys | (i.get? (hash.apply key)).isSome}.ncard := by
  have hheld : i.heldKeys = hash.apply '' {key ∈ keys | (i.get? (hash.apply key)).isSome} := by
    ext key
    constructor
    · intro hkey
      obtain ⟨k, hk, rfl⟩ := h.held hkey
      exact ⟨k, ⟨hk, hkey⟩, rfl⟩
    · rintro ⟨k, ⟨-, hsome⟩, rfl⟩
      exact hsome
  rw [← h.wellFormed.ncard_heldKeys, hheld,
    (injective.mono (Set.sep_subset _ _)).ncard_image]

lemma Keyed.of_get? (h : Keyed hash keys i) (wellFormed : j.WellFormed)
    (entries : ∀ key, (j.get? key).isSome → (i.get? key).isSome) : Keyed hash keys j :=
  ⟨wellFormed, fun key hkey => h.held (entries key hkey)⟩

lemma Keyed.sweep (h : Keyed hash keys i) (floor : Binary64) :
    Keyed hash keys (i.sweep floor).2 := by
  refine h.of_get? (wellFormed_kept.sweep i floor h.wellFormed) fun key hkey => ?_
  rw [get?_sweep h.wellFormed] at hkey
  exact Option.isSome_of_isSome_filter _ _ hkey

lemma Keyed.close (h : Keyed hash keys i) : Keyed hash keys i.close.2 := by
  refine h.of_get? (wellFormed_kept.close i h.wellFormed) fun key hkey => ?_
  rwa [get?_close] at hkey

/-- Indexes that match on all the keys that they hold have the same size. -/
lemma Matched.size_eq (h : Matched hash other keys i j) (hi : Keyed hash keys i)
    (hj : Keyed other keys j) (injective : Set.InjOn hash.apply keys)
    (injective' : Set.InjOn other.apply keys) : j.size = i.size := by
  rw [hi.size_eq injective, hj.size_eq injective']
  congr 1
  ext key
  exact and_congr_right fun hkey => by rw [h.entries key hkey]

end KeyIndex

namespace Partition

/-- A call brings in keys that it mentions and no others. -/
lemma call_keyed {p : Partition} {keys : Set PrimaryKey}
    (h : p.index.Keyed p.settings.hash keys) (call : Call) (hupdate : call.IsUpdate)
    (mentions : ∀ key, call.Mentions p.readRequest key → key ∈ keys) :
    (p.call call).index.Keyed p.settings.hash keys := by
  refine ⟨run_kept KeyIndex.wellFormed_kept p [call] h.wellFormed, fun key hkey => ?_⟩
  by_cases hmentioned : ∃ k, call.Mentions p.readRequest k ∧ p.keyOf k = key
  · obtain ⟨k, hk, rfl⟩ := hmentioned
    exact ⟨k, mentions k hk, rfl⟩
  -- a key that is not mentioned was held before
  · rw [KeyIndex.heldKeys, Set.mem_ofPred_eq,
      get?_call_of_ne hupdate fun k hk heq => hmentioned ⟨k, hk, heq⟩] at hkey
    exact h.held hkey

/-! ## The same partition with whole keys -/

/-- The same partition but for how keys are held, and so over another index. -/
def rehashed (p : Partition) (hash : KeyHash) (index : KeyIndex) : Partition :=
  { p with settings := p.settings.withHash hash, index }

/-- The same build but for how keys are held sets up the same partition. -/
lemma build_withHash (settings : Settings) (hash : KeyHash) (index : KeyIndex)
    (choice : StoreChoice) (metrics : Metrics) :
    build (settings.withHash hash) index choice metrics =
      (build settings index choice metrics).map fun p => p.rehashed hash index := by
  unfold build
  rw [Settings.checked_withHash]
  cases settings.checked with
  | error e => rfl
  | ok s => rfl

lemma hash_index_of_build {settings : Settings} {index : KeyIndex} {choice : StoreChoice}
    {metrics : Metrics} {p : Partition} (h : build settings index choice metrics = .ok p) :
    p.settings.hash = settings.hash ∧ p.index = index := by
  unfold build at h
  cases hchecked : settings.checked with
  | error e =>
    rw [hchecked] at h
    cases h
  | ok s =>
    rw [hchecked] at h
    cases h
    exact ⟨Settings.hash_of_checked hchecked, rfl⟩

/-- The answers to some calls, one after the other. -/
def answers (p : Partition) : List Call → List Answer
  | [] => []
  | call :: rest => p.answer call :: (p.call call).answers rest

/-- Two partitions of which the second one holds keys whole and is the same otherwise, over
indexes that hold the same entries for the keys of a set, no two of them as one, and nothing
else. -/
structure Rehashed (keys : Set PrimaryKey) (p q : Partition) : Prop where
  rekeyed : ∃ index, q = p.rehashed .whole index
  injective : Set.InjOn p.settings.hash.apply keys
  matched : p.index.Matched p.settings.hash .whole keys q.index
  keyed : p.index.Keyed p.settings.hash keys
  keyedWhole : q.index.Keyed .whole keys

namespace Rehashed

variable {keys : Set PrimaryKey} {p q : Partition}

lemma size_eq (h : Rehashed keys p q) : q.size = p.size :=
  h.matched.size_eq h.keyed h.keyedWhole h.injective (KeyHash.whole_injOn keys)

lemma hash_eq (h : Rehashed keys p q) : q.settings.hash = .whole := by
  obtain ⟨_, rfl⟩ := h.rekeyed
  rfl

lemma readRequest_eq (h : Rehashed keys p q) : q.readRequest = p.readRequest := by
  obtain ⟨_, rfl⟩ := h.rekeyed
  rfl

lemma counterparts (h : Rehashed keys p q) : Counterparts keys p q := by
  have halike := KeyHash.alike_of_injOn h.injective (KeyHash.whole_injOn keys)
  have hmatched := h.matched
  obtain ⟨index, rfl⟩ := h.rekeyed
  exact ⟨rfl, rfl, rfl, halike, hmatched⟩

/-- Whatever is put in place of the rest is the same in both. -/
lemma frame (h : Rehashed keys p q) {i j : KeyIndex}
    (matched : i.Matched p.settings.hash .whole keys j) (keyed : i.Keyed p.settings.hash keys)
    (keyedWhole : j.Keyed .whole keys) (watermark : Watermark) (store : WatermarkStore)
    (metrics : Metrics) (gate : Gate) (log : List Event) :
    Rehashed keys { p with index := i, watermark, store, metrics, gate, log }
      { q with index := j, watermark, store, metrics, gate, log } := by
  have hinjective := h.injective
  obtain ⟨index, rfl⟩ := h.rekeyed
  exact ⟨⟨j, rfl⟩, hinjective, matched, keyed, keyedWhole⟩

lemma with_gate (h : Rehashed keys p q) (gate : Gate) :
    Rehashed keys { p with gate } { q with gate } := by
  obtain ⟨⟨index, rfl⟩, hinjective, hmatched, hkeyed, hwhole⟩ := h
  exact ⟨⟨index, rfl⟩, hinjective, hmatched, hkeyed, hwhole⟩

lemma report (h : Rehashed keys p q) (event : Event) :
    Rehashed keys (p.report event) (q.report event) := by
  obtain ⟨⟨index, rfl⟩, hinjective, hmatched, hkeyed, hwhole⟩ := h
  exact ⟨⟨index, rfl⟩, hinjective, hmatched, hkeyed, hwhole⟩

lemma leave (h : Rehashed keys p q) : Rehashed keys p.leave q.leave := by
  unfold Partition.leave
  rw [h.counterparts.gate]
  exact h.with_gate _

/-- The gauge is set to the same number, since the indexes that are left have the same size. -/
lemma of_parallel (h : Rehashed keys p q) {α : Type} {x y : α × Partition}
    (hxy : Parallel keys p q x y) (hx : x.2.index.Keyed p.settings.hash keys)
    (hy : y.2.index.Keyed .whole keys) : Rehashed keys x.2 y.2 := by
  obtain ⟨⟨index, rfl⟩, hinjective, -, -, -⟩ := h
  cases hxy with
  | intro answer watermark i j events gauged matched =>
    have hsize := matched.size_eq hx hy hinjective (KeyHash.whole_injOn keys)
    refine ⟨⟨j, ?_⟩, hinjective, matched, hx, hy⟩
    simp only [leaving, hsize]
    rfl

lemma sweepIndex (h : Rehashed keys p q) :
    q.sweepIndex.1 = p.sweepIndex.1 ∧ Rehashed keys p.sweepIndex.2 q.sweepIndex.2 := by
  have hmatched := h.matched.sweep h.keyed.wellFormed h.keyedWhole.wellFormed p.floor
  have hkeyed := h.keyed.sweep p.floor
  have hwhole := h.keyedWhole.sweep p.floor
  have hsize := h.size_eq
  have hafter := hmatched.size_eq hkeyed hwhole h.injective (KeyHash.whole_injOn keys)
  -- the sizes agree before and after, and so does what is dropped in between
  have hremoved : (q.index.sweep p.floor).1 = (p.index.sweep p.floor).1 := by
    have hp := p.index.sweep_fst_add_size p.floor
    have hq := q.index.sweep_fst_add_size p.floor
    unfold size at hsize
    omega
  have hframe := h.frame hmatched hkeyed hwhole
  obtain ⟨j, rfl⟩ := h.rekeyed
  have hfloor : (p.rehashed .whole j).floor = p.floor := rfl
  unfold Partition.sweepIndex
  rw [hfloor]
  dsimp only [rehashed, Settings.withHash] at hremoved hafter hframe ⊢
  rw [hremoved]
  rcases p.store.persist p.watermark.time with ⟨e | _, store⟩
  · exact ⟨rfl, hframe ..⟩
  · refine ⟨rfl, ?_⟩
    simp only [refreshGauge, setGauge, size, hafter]
    exact hframe ..

lemma sweep (h : Rehashed keys p q) :
    q.sweep.1 = p.sweep.1 ∧ Rehashed keys p.sweep.2 q.sweep.2 := by
  have hinside (gate : Gate) := (h.with_gate gate).sweepIndex
  have hsettings : q.settings.ttlEnabled = p.settings.ttlEnabled := by
    rw [h.counterparts.settings]
    rfl
  unfold Partition.sweep
  rw [hsettings, h.counterparts.gate]
  split
  · cases p.gate.enter? with
    | none => exact ⟨rfl, h.report _⟩
    | some gate =>
      obtain ⟨hresult, hafter⟩ := hinside gate
      exact ⟨hresult, hafter.leave⟩
  · exact ⟨rfl, h⟩

lemma stop (h : Rehashed keys p q) : Rehashed keys p.stop q.stop := by
  unfold Partition.stop
  rw [h.counterparts.gate, h.size_eq]
  cases p.gate.stop? with
  | none => exact h.report _
  | some gate => exact (h.with_gate gate).report _

lemma release (h : Rehashed keys p q) :
    q.release.1 = p.release.1 ∧ Rehashed keys p.release.2 q.release.2 := by
  obtain ⟨hresult, hmatched⟩ := h.matched.close
  have hframe := h.frame hmatched h.keyed.close h.keyedWhole.close p.watermark p.store
  have hsize := h.size_eq
  obtain ⟨j, rfl⟩ := h.rekeyed
  unfold Partition.release
  rw [hsize]
  dsimp only [rehashed, Settings.withHash, Partition.report] at hresult hframe ⊢
  generalize p.index.close = closed at hresult hframe ⊢
  generalize j.close = closed' at hresult hframe ⊢
  obtain ⟨result, index⟩ := closed
  obtain ⟨result', index'⟩ := closed'
  obtain rfl : result' = result := hresult
  cases result' with
  | error e => exact ⟨rfl, hframe ..⟩
  | ok _ => exact ⟨rfl, hframe ..⟩

lemma closeWith (h : Rehashed keys p q) (result : Except GateError CloseStatus) :
    (q.closeWith result).1 = (p.closeWith result).1 ∧
      Rehashed keys (p.closeWith result).2 (q.closeWith result).2 := by
  cases result with
  | error e => exact ⟨rfl, h⟩
  | ok status =>
    cases status with
    | alreadyClosed => exact ⟨rfl, h.report _⟩
    | drained => exact h.release

lemma closeNow (h : Rehashed keys p q) :
    q.closeNow.1 = p.closeNow.1 ∧ Rehashed keys p.closeNow.2 q.closeNow.2 := by
  unfold Partition.closeNow beginClose
  rw [h.counterparts.gate]
  rcases p.gate.enterCloser with ⟨entry, gate⟩
  cases entry with
  | refused e => exact (h.with_gate gate).closeWith (.error e)
  | finished status => exact (h.with_gate gate).closeWith (.ok status)
  | waiting pending =>
    -- nobody else runs, so the wait is given up at once
    exact (((h.with_gate gate).report _).with_gate _).closeWith _

/-! ## Calls and runs -/

/-- A call that mentions keys of the set only is answered alike, and leaves the same but for how
the keys are held. -/
theorem call (h : Rehashed keys p q) {call : Call}
    (mentions : ∀ key, call.Mentions p.readRequest key → key ∈ keys) :
    q.answer call = p.answer call ∧ Rehashed keys (p.call call) (q.call call) := by
  have hwhole (hupdate : call.IsUpdate) : (q.call call).index.Keyed .whole keys := by
    have hkept := call_keyed (p := q) (h.hash_eq ▸ h.keyedWhole) call hupdate
      (h.readRequest_eq ▸ mentions)
    rwa [h.hash_eq] at hkept
  cases call with
  | change change =>
    have hparallel := h.counterparts.change mentions
    exact ⟨congrArg Answer.segment hparallel.answer_eq,
      h.of_parallel hparallel (call_keyed h.keyed (.change change) trivial mentions)
        (hwhole trivial)⟩
  | ingest segment record =>
    have hparallel := h.counterparts.ingest segment (mentions _ (.single segment record))
    exact ⟨congrArg Answer.record hparallel.answer_eq,
      h.of_parallel hparallel (call_keyed h.keyed (.ingest segment record) trivial mentions)
        (hwhole trivial)⟩
  | sweep =>
    obtain ⟨hanswer, hafter⟩ := h.sweep
    exact ⟨congrArg Answer.sweep hanswer, hafter⟩
  | stop => exact ⟨rfl, h.stop⟩
  | close =>
    obtain ⟨hanswer, hafter⟩ := h.closeNow
    exact ⟨congrArg Answer.close hanswer, hafter⟩

lemma run (h : Rehashed keys p q) {calls : List Call}
    (mentions : ∀ call ∈ calls, ∀ key, call.Mentions p.readRequest key → key ∈ keys) :
    q.answers calls = p.answers calls ∧ Rehashed keys (p.run calls) (q.run calls) := by
  induction calls generalizing p q with
  | nil => exact ⟨rfl, h⟩
  | cons call rest ih =>
    obtain ⟨hanswer, hnext⟩ := h.call (mentions call List.mem_cons_self)
    obtain ⟨hanswers, hlast⟩ := ih hnext fun other hmem => by
      rw [readRequest_call]
      exact mentions other (List.mem_cons_of_mem _ hmem)
    exact ⟨congrArg₂ List.cons hanswer hanswers, hlast⟩

/-- An empty index is empty however keys are held. -/
lemma of_empty (empty : p.index.keys = []) (injective : Set.InjOn p.settings.hash.apply keys) :
    Rehashed keys p (p.rehashed .whole p.index) := by
  have hnone := KeyIndex.get?_of_keys_eq_nil empty
  have hkeyed (hash : KeyHash) : p.index.Keyed hash keys := by
    refine ⟨KeyIndex.wellFormed_of_keys_eq_nil empty, fun key hkey => ?_⟩
    rw [KeyIndex.heldKeys, Set.mem_ofPred_eq, hnone] at hkey
    cases hkey
  refine ⟨⟨p.index, rfl⟩, injective, ⟨fun key _ => ?_, (KeyIndex.Twins.refl _).failsLike⟩,
    hkeyed _, hkeyed _⟩
  exact (hnone _).trans (hnone _).symm

end Rehashed

/-- **Hashing keys cannot be seen.**  Take any settings and an empty index, and a set of keys no
two of which have the same digest.  The settings with whole keys are refused for the same reason,
or set up the same partition.  Then all calls that mention keys of the set only are answered
alike, and after each of them the partitions are the same but for their indexes: these have the
same size, and what one holds under the digest of a key, the other holds under the key. -/
theorem hashing_is_transparent {settings : Settings} {index : KeyIndex} (empty : index.keys = [])
    {keys : Set PrimaryKey} (injective : Set.InjOn settings.hash.apply keys)
    (choice : StoreChoice) (metrics : Metrics) (calls : List Call) :
    build (settings.withHash .whole) index choice metrics =
        (build settings index choice metrics).map (fun p => p.rehashed .whole index) ∧
      ∀ p, build settings index choice metrics = .ok p →
        (∀ call ∈ calls, ∀ key, call.Mentions p.readRequest key → key ∈ keys) →
        (p.rehashed .whole index).answers calls = p.answers calls ∧
        ∀ before, before <+: calls → ∃ i,
          (p.rehashed .whole index).run before = (p.run before).rehashed .whole i ∧
          i.size = (p.run before).size ∧
          ∀ key ∈ keys,
            i.get? (.whole key) = (p.run before).index.get? (settings.hash.apply key) := by
  refine ⟨build_withHash settings .whole index choice metrics, fun p built mentions => ?_⟩
  obtain ⟨hhash, rfl⟩ := hash_index_of_build built
  rw [← hhash] at injective ⊢
  have hstart := Rehashed.of_empty empty injective
  refine ⟨(hstart.run mentions).1, fun before hbefore => ?_⟩
  obtain ⟨-, hafter⟩ := hstart.run fun call hmem => mentions call (hbefore.mem hmem)
  obtain ⟨i, heq⟩ := hafter.rekeyed
  have hsize := hafter.size_eq
  have hentries := hafter.matched.entries
  rw [heq] at hsize hentries
  refine ⟨i, heq, hsize, fun key hkey => ?_⟩
  rw [← p.run_settings before]
  exact hentries key hkey

end Partition

open Sample in
/-- Calls that mention the keys 1 and 2, of which one is refused after it has written both. -/
def Sample.twoKeys : List Call :=
  [.change (.add (segment 1 [record 1 0 (.int 5)])), .change (.add torn),
    .ingest ⟨3, "s3"⟩ (record 2 0 (.int 4))]

open Sample in
/-- A table that holds digests of 64 bits. -/
theorem hashing_is_transparent_torn :
    Set.InjOn KeyHash.fnv64.apply {⟨[.int 1]⟩, ⟨[.int 2]⟩} ∧
    ∃ p, Partition.build (settings.withHash .fnv64) { backend := .sorted {} }
        (.given { medium := .memory {} }) .off = .ok p ∧
      (p.rehashed .whole { backend := .sorted {} }).answers twoKeys = p.answers twoKeys ∧
      ∃ i, (p.rehashed .whole { backend := .sorted {} }).run twoKeys =
          (p.run twoKeys).rehashed .whole i ∧ i.size = 2 ∧
        i.get? (key 2) = (p.run twoKeys).index.get? (KeyHash.fnv64.apply ⟨[.int 2]⟩) ∧
        (i.get? (key 2)).isSome = true := by
  have injective : Set.InjOn (settings.withHash .fnv64).hash.apply {⟨[.int 1]⟩, ⟨[.int 2]⟩} := by
    rintro _ (rfl | rfl) _ (rfl | rfl) h
    · rfl
    · exact absurd h (by decide +kernel)
    · exact absurd h (by decide +kernel)
    · rfl
  have mentions (request : ReadRequest) : ∀ call ∈ twoKeys, ∀ key, call.Mentions request key →
      key ∈ ({⟨[.int 1]⟩, ⟨[.int 2]⟩} : Set PrimaryKey) := by
    intro call hcall key hkey
    simp only [twoKeys, List.mem_cons, List.not_mem_nil, or_false] at hcall
    rcases hcall with rfl | rfl | rfl
    · obtain ⟨named, hread, hmem⟩ := hkey
      obtain rfl := List.mem_singleton.1 named
      obtain rfl := Segment.eq_of_read_ofRecords hread
      obtain rfl := List.mem_singleton.1 hmem
      exact .inl rfl
    · obtain ⟨named, hread, hmem⟩ := hkey
      obtain rfl := List.mem_singleton.1 named
      obtain rfl := Segment.eq_of_read_ofRecords hread
      simp only [List.mem_cons, List.not_mem_nil, or_false] at hmem
      rcases hmem with rfl | rfl | rfl | rfl
      · exact .inl rfl
      · exact .inr rfl
      · exact .inl rfl
      · exact .inl rfl
    · obtain ⟨⟩ := hkey
      exact .inr rfl
  have empty : KeyIndex.keys { backend := .sorted {} } = [] := rfl
  have built : Partition.build (settings.withHash .fnv64) { backend := .sorted {} }
      (.given { medium := .memory {} }) .off = .ok _ := rfl
  obtain ⟨-, hruns⟩ := Partition.hashing_is_transparent empty injective
    (.given { medium := .memory {} }) .off twoKeys
  obtain ⟨hanswers, hsteps⟩ := hruns _ built (mentions _)
  obtain ⟨i, hrun, hsize, hentries⟩ := hsteps twoKeys List.prefix_rfl
  refine ⟨injective, _, built, hanswers, i, hrun, hsize.trans ?_, hentries _ (by simp), ?_⟩
  · decide +kernel
  · rw [show i.get? (key 2) = _ from hentries ⟨[.int 2]⟩ (by simp)]
    decide +kernel

end PartitionKeys

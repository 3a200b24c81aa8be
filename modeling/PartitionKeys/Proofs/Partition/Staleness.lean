/-
# Stale entries are as good as absent

An entry below the floor is stale.  An offer on terms with that floor treats it as if the key
had no entry, so what an index answers depends on its other entries only.  Two indexes
`AgreeAbove` a floor if they hold the same entries apart from stale ones and fail in the same
calls; then they make the same of every offer and agree above the floor again.  A sweep drops
stale entries only, where all times are numbers, so an index agrees with itself before a sweep.
-/
import PartitionKeys.Proofs.Binary64.Subtraction
import PartitionKeys.Proofs.Index.Agreement
import PartitionKeys.Proofs.Partition.Pass

namespace PartitionKeys

/-- What an entry comes to under a floor: a stale one is none. -/
def unlessStale (floor : Binary64) (present : Option Entry) : Option Entry :=
  present.filter fun entry => !decide (entry.time < floor)

lemma unlessStale_eq_some {floor : Binary64} {present : Option Entry} {entry : Entry} :
    unlessStale floor present = some entry ↔ present = some entry ∧ ¬entry.time < floor := by
  simp [unlessStale, Option.filter_eq_some_iff]

lemma unlessStale_of_lt {floor : Binary64} {entry : Entry} (h : entry.time < floor) :
    unlessStale floor (some entry) = none := by
  rw [unlessStale, Option.filter_some]
  simp [h]

lemma unlessStale_of_not_lt {floor : Binary64} {entry : Entry} (h : ¬entry.time < floor) :
    unlessStale floor (some entry) = some entry := by
  rw [unlessStale, Option.filter_some]
  simp [h]

/-- Staleness is for good: what a floor hides, a higher floor hides as well. -/
lemma unlessStale_of_le {floor higher : Binary64} (h : floor ≤ higher) (present : Option Entry) :
    unlessStale higher (unlessStale floor present) = unlessStale higher present := by
  cases present with
  | none => rfl
  | some entry =>
    by_cases hstale : entry.time < floor
    · rw [unlessStale_of_lt hstale, unlessStale_of_lt (Binary64.lt_of_lt_of_le hstale h)]
      rfl
    · rw [unlessStale_of_not_lt hstale]

/-- A resolution does not tell a stale entry from none. -/
lemma resolve_unlessStale {t : Terms} {floor : Binary64} (hfloor : t.floor = some floor)
    (present : Option Entry) (proposed : Entry) :
    resolve (unlessStale floor present) proposed t = resolve present proposed t := by
  cases present with
  | none => rfl
  | some entry =>
    by_cases hstale : entry.time < floor
    · rw [unlessStale_of_lt hstale]
      simp [resolve, Terms.isStale, hfloor, hstale]
    · rw [unlessStale_of_not_lt hstale]

/-! ## What an index makes of an offer -/

/-- The outcome alone does not tell what was there before. -/
lemma Resolution.map_update_outcome (v : Except IndexError Resolution) (present : Option Entry) :
    (v.map (Resolution.update present)).map Update.outcome = v.map Resolution.outcome := by
  cases v with
  | error e => rfl
  | ok r => cases r <;> rfl

namespace KeyIndex

/-- Whether the index is closed for offers. -/
def isClosed (i : KeyIndex) : Bool :=
  match i.backend with
  | .sorted i => i.closed
  | .unordered i => i.closed

/-- The failure of an offer that is to fail whatever is offered. -/
def brokenApply (i : KeyIndex) : Option IndexError :=
  if i.failingApplies.contains i.applyCalls then
    some (.release ("apply " ++ toString i.applyCalls ++ " failed"))
  else none

/-- What an index with its failures makes of an offer. -/
def verdict (i : KeyIndex) (key : IndexKey) (proposed : Entry) (t : Terms) :
    Except IndexError Resolution :=
  match i.brokenApply with
  | some e => .error e
  | none => PartitionKeys.verdict i.isClosed (i.get? key) proposed t

lemma apply_verdict (i : KeyIndex) (key : IndexKey) (proposed : Entry) (t : Terms) :
    (i.apply key proposed t).1 =
        (i.verdict key proposed t).map (Resolution.update (i.get? key)) ∧
      (i.apply key proposed t).2.get? = written i.get? key (i.verdict key proposed t) ∧
      (i.apply key proposed t).2.isClosed = i.isClosed := by
  unfold apply verdict brokenApply
  dsimp only
  split
  · exact ⟨rfl, rfl, rfl⟩
  obtain ⟨backend, _, _, _, _⟩ := i
  cases backend with
  | sorted i => exact i.apply_verdict key proposed t
  | unordered i => exact i.apply_verdict key proposed t

/-- Only an index that is open accepts an offer, and it is open afterwards. -/
lemma isClosed_of_apply_ok {i : KeyIndex} {key : IndexKey} {proposed : Entry} {t : Terms}
    {update : Update} (h : (i.apply key proposed t).1 = .ok update) :
    (i.apply key proposed t).2.isClosed = false := by
  obtain ⟨hresult, -, hsame⟩ := i.apply_verdict key proposed t
  rw [hsame]
  by_contra hclosed
  rw [Bool.not_eq_false] at hclosed
  rw [hresult, verdict, PartitionKeys.verdict, if_pos hclosed] at h
  split at h <;> cases h

lemma apply_frame (i : KeyIndex) (key : IndexKey) (proposed : Entry) (t : Terms) :
    ∃ backend, (i.apply key proposed t).2 = { i with backend, applyCalls := i.applyCalls + 1 } := by
  unfold apply
  dsimp only
  split <;> exact ⟨_, rfl⟩

/-- An index that is open answers the resolution, unless this offer is to fail whatever it is. -/
lemma apply_of_open {i : KeyIndex} (hopen : i.isClosed = false) (hsound : i.brokenApply = none)
    (key : IndexKey) (proposed : Entry) (t : Terms) :
    (i.apply key proposed t).1 =
      ((resolve (i.get? key) proposed t).mapError .comparison).map
        (Resolution.update (i.get? key)) := by
  obtain ⟨hresult, -, -⟩ := i.apply_verdict key proposed t
  rw [hresult, verdict, hsound, hopen]
  rfl

/-! ## Indexes that differ in their entries only -/

/-- Two indexes that fail in the same calls and are closed both or neither. -/
structure Twins (i j : KeyIndex) : Prop where
  closed : j.isClosed = i.isClosed
  failures : ∃ backend, j = { i with backend }

namespace Twins

variable {i j k : KeyIndex}

lemma refl (i : KeyIndex) : Twins i i := ⟨rfl, _, rfl⟩

lemma symm (h : Twins i j) : Twins j i := by
  obtain ⟨hclosed, backend, rfl⟩ := h
  exact ⟨hclosed.symm, i.backend, rfl⟩

lemma trans (hij : Twins i j) (hjk : Twins j k) : Twins i k := by
  obtain ⟨hclosed, backend, rfl⟩ := hij
  obtain ⟨hclosed', backend', rfl⟩ := hjk
  exact ⟨hclosed'.trans hclosed, backend', rfl⟩

lemma restore (i : KeyIndex) (key : IndexKey) (written : Location) (previous : Option Entry) :
    Twins i (i.restore key written previous).2 := by
  refine ⟨?_, _, rfl⟩
  obtain ⟨backend, _, _, _, _⟩ := i
  cases backend with
  | sorted i => exact i.closed_restore key written previous
  | unordered i => exact i.closed_restore key written previous

lemma remove (i : KeyIndex) (key : IndexKey) (expected : Location) :
    Twins i (i.remove key expected).2 := by
  refine ⟨?_, _, rfl⟩
  obtain ⟨backend, _, _, _, _⟩ := i
  cases backend with
  | sorted i => exact i.closed_remove key expected
  | unordered i => exact i.closed_remove key expected

lemma sweep (i : KeyIndex) (floor : Binary64) : Twins i (i.sweep floor).2 := by
  refine ⟨?_, _, rfl⟩
  obtain ⟨backend, _, _, _, _⟩ := i
  cases backend <;> rfl

lemma rollBack (i : KeyIndex) (journal : List Write) : Twins i (i.rollBack journal).2 := by
  induction journal generalizing i with
  | nil => exact refl i
  | cons write rest ih => exact (restore i write.key write.written write.displaced).trans (ih _)

lemma removeOwned (i : KeyIndex) (hash : KeyHash) (segment : SegmentId) (records : List Record) :
    Twins i (i.removeOwned hash segment records).2 := by
  induction records generalizing i with
  | nil => exact refl i
  | cons record rest ih =>
    exact (remove i (hash.apply record.key) ⟨segment, record.doc⟩).trans (ih _)

/-- Twins fail in the same offers and stay twins. -/
lemma apply (h : Twins i j) (key : IndexKey) (proposed other : Entry) (t : Terms) :
    Twins (i.apply key proposed t).2 (j.apply key other t).2 := by
  have hi := (i.apply_verdict key proposed t).2.2
  have hj := (j.apply_verdict key other t).2.2
  refine ⟨by rw [hi, hj, h.closed], ?_⟩
  obtain ⟨backend, rfl⟩ := h.failures
  obtain ⟨before, hbefore⟩ := i.apply_frame key proposed t
  obtain ⟨after, hafter⟩ := apply_frame { i with backend } key other t
  rw [hbefore, hafter]
  exact ⟨after, rfl⟩

lemma close (h : Twins i j) : j.close.1 = i.close.1 ∧ Twins i.close.2 j.close.2 := by
  have hclosed := h.closed
  obtain ⟨backend, rfl⟩ := h.failures
  unfold KeyIndex.close
  dsimp only
  split
  · exact ⟨rfl, hclosed, backend, rfl⟩
  · refine ⟨rfl, ?_, _, rfl⟩
    obtain ⟨before, _, _, _, _⟩ := i
    cases before <;> cases backend <;> rfl

end Twins

/-! ## Indexes that answer -/

/-- None of the offers that are to fail is still to come. -/
def Reliable (i : KeyIndex) : Prop := ∀ call ∈ i.failingApplies, call < i.applyCalls

lemma Reliable.brokenApply {i : KeyIndex} (h : i.Reliable) : i.brokenApply = none := by
  refine if_neg fun hcontains => ?_
  exact absurd (h _ (List.contains_iff_mem.1 hcontains)) (Nat.lt_irrefl _)

lemma keptInUse_reliable : KeptInUse Reliable where
  apply i key proposed t h := by
    obtain ⟨backend, hframe⟩ := i.apply_frame key proposed t
    intro call hmem
    rw [hframe] at hmem ⊢
    exact Nat.lt_succ_of_lt (h call hmem)
  restore i key written previous h := h
  remove i key expected h := h
  sweep i floor h := h

/-- An index that answers every offer to come. -/
structure Works (i : KeyIndex) : Prop where
  opened : i.isClosed = false
  reliable : i.Reliable

lemma keptInUse_works : KeptInUse Works where
  apply i key proposed t h :=
    ⟨(i.apply_verdict key proposed t).2.2.trans h.opened,
      keptInUse_reliable.apply i key proposed t h.reliable⟩
  restore i key written previous h :=
    ⟨(Twins.restore i key written previous).closed.trans h.opened, h.reliable⟩
  remove i key expected h := ⟨(Twins.remove i key expected).closed.trans h.opened, h.reliable⟩
  sweep i floor h := ⟨(Twins.sweep i floor).closed.trans h.opened, h.reliable⟩

/-- An index that answers an offer gives the resolution. -/
lemma Works.apply {i : KeyIndex} (h : i.Works) (key : IndexKey) (proposed : Entry) (t : Terms) :
    (i.apply key proposed t).1 =
      ((resolve (i.get? key) proposed t).mapError .comparison).map
        (Resolution.update (i.get? key)) :=
  apply_of_open h.opened h.reliable.brokenApply key proposed t

/-- An offer that can be resolved is accepted by an index that answers. -/
lemma Works.took {o : Offering} {record : Record} {pass : Pass} (h : pass.index.Works)
    {r : Resolution}
    (hr : resolve (pass.index.get? (o.key record)) (o.entry record).2 o.terms = .ok r) :
    ∃ next, Pass.run o [record] pass = (none, next) ∧ Pass.Took o record pass (none, next) ∧
      next.index.Works := by
  have htook := Pass.run_singleton o record pass
  have hanswer := h.apply (o.key record) (o.entry record).2 o.terms
  have hworks := keptInUse_works.apply pass.index (o.key record) (o.entry record).2 o.terms h
  rw [hr] at hanswer
  simp only [Pass.run, Offering.entry_fst] at htook ⊢
  generalize pass.index.apply (o.key record) (o.entry record).2 o.terms = call
    at htook hanswer hworks ⊢
  obtain ⟨answer, index⟩ := call
  obtain rfl := hanswer
  refine ⟨_, rfl, htook, ?_⟩
  rw [Pass.note_index]
  exact hworks

/-! ## Agreement above a floor -/

/-- The entry of a key, unless it is below a floor. -/
def live? (i : KeyIndex) (floor : Binary64) (key : IndexKey) : Option Entry :=
  unlessStale floor (i.get? key)

/-- Two indexes that hold the same entries apart from stale ones, and differ in nothing else. -/
structure AgreeAbove (floor : Binary64) (i j : KeyIndex) : Prop where
  live : ∀ key, j.live? floor key = i.live? floor key
  twins : Twins i j

namespace AgreeAbove

variable {floor : Binary64} {i j k : KeyIndex}

lemma symm (h : AgreeAbove floor i j) : AgreeAbove floor j i :=
  ⟨fun key => (h.live key).symm, h.twins.symm⟩

lemma trans (hij : AgreeAbove floor i j) (hjk : AgreeAbove floor j k) : AgreeAbove floor i k :=
  ⟨fun key => (hjk.live key).trans (hij.live key), hij.twins.trans hjk.twins⟩

/-- Indexes that agree above a floor agree above every higher one. -/
lemma mono (h : AgreeAbove floor i j) {higher : Binary64} (hle : floor ≤ higher) :
    AgreeAbove higher i j := by
  refine ⟨fun key => ?_, h.twins⟩
  have hkey := h.live key
  unfold live? at hkey ⊢
  rw [← unlessStale_of_le hle, hkey, unlessStale_of_le hle]

/-- Agreement is a matter of the entries as far as calls leave all else alone. -/
lemma of_get? (h : AgreeAbove floor i j) {i' j' : KeyIndex} (hi : i'.get? = i.get?)
    (hj : j'.get? = j.get?) (twins : Twins i' j') : AgreeAbove floor i' j' := by
  refine ⟨fun key => ?_, twins⟩
  rw [live?, live?, hi, hj]
  exact h.live key

lemma verdict_eq (h : AgreeAbove floor i j) {t : Terms} (hfloor : t.floor = some floor)
    (key : IndexKey) (proposed : Entry) : j.verdict key proposed t = i.verdict key proposed t := by
  have hresolve : resolve (j.get? key) proposed t = resolve (i.get? key) proposed t := by
    rw [← resolve_unlessStale hfloor (j.get? key), ← resolve_unlessStale hfloor (i.get? key)]
    exact congrArg (resolve · proposed t) (h.live key)
  have hclosed := h.twins.closed
  obtain ⟨backend, rfl⟩ := h.twins.failures
  unfold KeyIndex.verdict PartitionKeys.verdict
  rw [hresolve, hclosed]
  rfl

/-- An offer on terms with that floor has the same outcome, and what is written under its key
stands there in both, stale or not. -/
lemma apply (h : AgreeAbove floor i j) {t : Terms} (hfloor : t.floor = some floor)
    (key : IndexKey) (proposed : Entry) :
    (j.apply key proposed t).1.map Update.outcome = (i.apply key proposed t).1.map Update.outcome ∧
      AgreeAbove floor (i.apply key proposed t).2 (j.apply key proposed t).2 := by
  obtain ⟨hi, hientries, -⟩ := i.apply_verdict key proposed t
  obtain ⟨hj, hjentries, -⟩ := j.apply_verdict key proposed t
  rw [h.verdict_eq hfloor] at hj hjentries
  refine ⟨by rw [hi, hj, Resolution.map_update_outcome, Resolution.map_update_outcome],
    fun other => ?_, h.twins.apply key proposed proposed t⟩
  unfold live?
  rw [hientries, hjentries]
  unfold written
  cases (i.verdict key proposed t).toOption.bind Resolution.entry? with
  | none => exact h.live other
  | some entry =>
    dsimp only
    by_cases hother : other = key
    · subst hother
      rw [Function.update_self, Function.update_self]
    · rw [Function.update_of_ne hother, Function.update_of_ne hother]
      exact h.live other

/-- Dropping records looks at each entry by itself. -/
lemma removeOwned (h : AgreeAbove floor i j) (hash : KeyHash) (segment : SegmentId)
    (records : List Record) :
    AgreeAbove floor (i.removeOwned hash segment records).2
      (j.removeOwned hash segment records).2 := by
  have hleft (i : KeyIndex) (key : IndexKey) (entry : Entry) :
      (i.removeOwned hash segment records).2.live? floor key = some entry ↔
        i.live? floor key = some entry ∧
          ¬(entry.location.isIn segment = true ∧ Covered hash records key entry) := by
    rw [live?, live?, unlessStale_eq_some, unlessStale_eq_some, get?_removeOwned]
    tauto
  refine ⟨fun key => Option.ext fun entry => ?_, ?_⟩
  · rw [hleft, hleft, h.live key]
  · exact (Twins.removeOwned i hash segment records).symm.trans
      (h.twins.trans (Twins.removeOwned j hash segment records))

lemma close (h : AgreeAbove floor i j) :
    j.close.1 = i.close.1 ∧ AgreeAbove floor i.close.2 j.close.2 := by
  obtain ⟨hresult, htwins⟩ := h.twins.close
  exact ⟨hresult, h.of_get? i.get?_close j.get?_close htwins⟩

end AgreeAbove

/-- Where all times are numbers, a sweep drops nothing but stale entries. -/
lemma agreeAbove_sweep {i : KeyIndex} (hwell : i.WellFormed) {floor : Binary64}
    (hfloor : floor.isNaN = false)
    (numbers : ∀ key entry, i.get? key = some entry → entry.time.isNaN = false) :
    AgreeAbove floor i (i.sweep floor).2 := by
  refine ⟨fun key => ?_, Twins.sweep i floor⟩
  unfold live?
  rw [get?_sweep hwell]
  cases hget : i.get? key with
  | none => rfl
  | some entry =>
    rw [Option.filter_some]
    by_cases hle : floor ≤ entry.time
    · simp [hle]
    · have hstale := (Binary64.not_le_iff (numbers key entry hget) hfloor).1 hle
      rw [unlessStale_of_lt hstale]
      simp [hle, unlessStale]

end KeyIndex

lemma Pass.note_counts (pass : Pass) (o : Offering) (record : Record) (update : Update) :
    (pass.note o record update).counts = pass.counts.record update.outcome := by
  obtain ⟨outcome, displaced⟩ := update
  cases outcome with
  | inserted | superseded => rfl
  | rejected => cases hkind : o.terms.kind <;> simp [note, hkind]

/-- Record by record, a pass has the same outcomes over indexes that agree above the floor. -/
lemma KeyIndex.AgreeAbove.passRun {floor : Binary64} {o : Offering}
    (hfloor : o.terms.floor = some floor) (records : List Record) {p q : Pass}
    (h : AgreeAbove floor p.index q.index) (counts : q.counts = p.counts) :
    (Pass.run o records q).1 = (Pass.run o records p).1 ∧
      (Pass.run o records q).2.counts = (Pass.run o records p).2.counts ∧
      AgreeAbove floor (Pass.run o records p).2.index (Pass.run o records q).2.index := by
  induction records generalizing p q with
  | nil => exact ⟨rfl, counts, h⟩
  | cons record rest ih =>
    obtain ⟨houtcome, hagree⟩ := h.apply hfloor (o.key record) (o.entry record).2
    simp only [Pass.run, Offering.entry_fst]
    generalize p.index.apply (o.key record) (o.entry record).2 o.terms = call
      at houtcome hagree ⊢
    generalize q.index.apply (o.key record) (o.entry record).2 o.terms = call'
      at houtcome hagree ⊢
    obtain ⟨e | update, index⟩ := call <;> obtain ⟨e' | update', index'⟩ := call'
    · cases houtcome
      exact ⟨rfl, counts, hagree⟩
    · cases houtcome
    · cases houtcome
    · have hsame : update'.outcome = update.outcome := Except.ok.inj houtcome
      refine ih ?_ ?_
      · rw [Pass.note_index, Pass.note_index]
        exact hagree
      · rw [Pass.note_counts, Pass.note_counts, hsame, counts]

end PartitionKeys

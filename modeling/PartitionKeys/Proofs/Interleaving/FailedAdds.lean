/-
# Failed additions that take turns

Several segments are added at once, and every addition fails and undoes its writes.  A write
may displace an entry of another addition that is undone as well, so whether the entries
from before come back depends on the turns.  For each key the entry from before the run has
one of three standings: it is there, one write that is still to be undone holds it, or it is
gone, since that write was passed over.  No other write ever holds it; so it comes back
unless the one write that displaced it is not found in place.
-/
import PartitionKeys.Proofs.Interleaving.Task
import PartitionKeys.Proofs.Partition.Failure

namespace PartitionKeys

/-! ## The standing of the first entry of a key -/

section Standing

variable {ι : Type} [DecidableEq ι] {foreign : Option Entry → Prop} {first current : Option Entry}
  {holding : ι → Nat} {lost : Prop}

/-- How things stand with the first entry of a key: `current` is what the key has now,
`holding` counts for each task the writes to be undone that displaced the first entry, and
`lost` tells whether such a write was passed over. -/
inductive Standing (foreign : Option Entry → Prop) (first current : Option Entry)
    (holding : ι → Nat) (lost : Prop) : Prop
  | kept (there : current = first) (free : ∀ t, holding t = 0) (safe : ¬ lost)
  | held (holder : ι) (hcurrent : foreign current) (one : holding holder = 1)
    (others : ∀ t, t ≠ holder → holding t = 0) (safe : ¬ lost)
  | gone (hcurrent : foreign current) (free : ∀ t, holding t = 0) (hlost : lost)

/-- What a task holds if it holds one write more. -/
def holdingOneMore (holding : ι → Nat) (t : ι) (displaced first : Option Entry) : ι → Nat :=
  Function.update holding t (holding t + if displaced = first then 1 else 0)

lemma holdingOneMore_self (t : ι) (displaced : Option Entry) :
    holdingOneMore holding t displaced first t =
      holding t + if displaced = first then 1 else 0 :=
  Function.update_self ..

lemma holdingOneMore_of_ne {s t : ι} (h : s ≠ t) (displaced : Option Entry) :
    holdingOneMore holding t displaced first s = holding s :=
  Function.update_of_ne h ..

lemma holdingOneMore_of_foreign {displaced : Option Entry} (h : displaced ≠ first) (t : ι) :
    holdingOneMore holding t displaced first = holding := by
  rw [holdingOneMore, if_neg h]
  exact Function.update_eq_self ..

lemma not_free {t : ι} {displaced : Option Entry} (h : displaced = first) :
    ¬ ∀ s, holdingOneMore holding t displaced first s = 0 := by
  intro hfree
  have ht := hfree t
  rw [holdingOneMore_self, if_pos h] at ht
  omega

/-- The one who holds the first entry is the one with a write that displaced it. -/
lemma free_of_held {holder t : ι} {displaced : Option Entry} (h : displaced = first)
    (one : holdingOneMore holding t displaced first holder = 1)
    (others : ∀ s, s ≠ holder → holdingOneMore holding t displaced first s = 0) (s : ι) :
    holding s = 0 := by
  have hholder : holder = t := by
    by_contra hne
    have ht := others t (Ne.symm hne)
    rw [holdingOneMore_self, if_pos h] at ht
    omega
  subst hholder
  by_cases hs : s = holder
  · subst hs
    rw [holdingOneMore_self, if_pos h] at one
    omega
  · rw [← others s hs, holdingOneMore_of_ne hs]

/-- A write displaces the first entry if it is still there. -/
lemma Standing.wrote (hfresh : ∀ x, foreign x → x ≠ first)
    (h : Standing foreign first current holding lost) {next : Option Entry} (hnext : foreign next)
    (t : ι) :
    Standing foreign first next (holdingOneMore holding t current first) lost := by
  cases h with
  | kept there free safe =>
    refine .held t hnext ?_ (fun s hs => ?_) safe
    · rw [holdingOneMore_self, free t, if_pos there]
    · rw [holdingOneMore_of_ne hs, free s]
  | held holder hcurrent one others safe =>
    rw [holdingOneMore_of_foreign (hfresh _ hcurrent)]
    exact .held holder hnext one others safe
  | gone hcurrent free hlost =>
    rw [holdingOneMore_of_foreign (hfresh _ hcurrent)]
    exact .gone hnext free hlost

/-- A write that is undone puts the first entry back if it held it. -/
lemma Standing.undone (hfresh : ∀ x, foreign x → x ≠ first) {displaced : Option Entry} {t : ι}
    (h : Standing foreign first current (holdingOneMore holding t displaced first) lost)
    (hcurrent : foreign current) (hdisplaced : displaced = first ∨ foreign displaced) :
    Standing foreign first displaced holding lost := by
  by_cases hfirst : displaced = first
  · -- the write held the first entry, so no other one does
    cases h with
    | kept there => exact absurd there (hfresh _ hcurrent)
    | held holder _ one others safe => exact .kept hfirst (free_of_held hfirst one others) safe
    | gone _ free => exact absurd free (not_free hfirst)
  · rw [holdingOneMore_of_foreign hfirst] at h
    have hdisplaced := hdisplaced.resolve_left hfirst
    cases h with
    | kept there => exact absurd there (hfresh _ hcurrent)
    | held holder _ one others safe => exact .held holder hdisplaced one others safe
    | gone _ free hlost => exact .gone hdisplaced free hlost

/-- A write that is passed over takes the first entry with it if it held it. -/
lemma Standing.passed {displaced : Option Entry} {t : ι}
    (h : Standing foreign first current (holdingOneMore holding t displaced first) lost) :
    Standing foreign first current holding (lost ∨ displaced = first) := by
  by_cases hfirst : displaced = first
  · cases h with
    | kept _ free => exact absurd free (not_free hfirst)
    | held holder hcurrent one others =>
      exact .gone hcurrent (free_of_held hfirst one others) (.inr hfirst)
    | gone _ free => exact absurd free (not_free hfirst)
  · rw [holdingOneMore_of_foreign hfirst] at h
    rwa [or_iff_left hfirst]

end Standing

/-! ## Additions that take turns -/

namespace World

variable {ι : Type} [DecidableEq ι] {segment : ι → SegmentId} {first : IndexKey → Option Entry}
  {w next : World ι} {t : ι} {write : Write}

/-- Additions of segments that are about to start. -/
def adding (i : KeyIndex) (o : ι → Offering) (records : ι → List Record) : World ι where
  index := i
  task t := .offering (o t) (records t) [] none

/-- All tasks add segments, and each writes into its own one. -/
structure Adding (segment : ι → SegmentId) (w : World ι) : Prop where
  adds : ∀ t, (w.task t).Adds (segment t)
  located : ∀ t, ∀ write ∈ (w.task t).live, write.written.isIn (segment t) = true

/-- A property of all writes, when one task has had its turn. -/
lemma forall_live {motive : ι → Write → Prop} (others : ∀ s, s ≠ t → next.task s = w.task s)
    (before : ∀ s, ∀ write ∈ (w.task s).live, motive s write)
    (now : ∀ write ∈ (next.task t).live, motive t write) :
    ∀ s, ∀ write ∈ (next.task s).live, motive s write := by
  intro s write hmem
  by_cases hs : s = t
  · subst hs
    exact now write hmem
  · rw [others s hs] at hmem
    exact before s write hmem

lemma Adding.journaled (h : Adding segment w) (t : ι) :
    Task.Journaled (segment t) w.index.get? (w.step t).index.get? (w.task t)
      ((w.step t).task t) :=
  ((h.adds t).journaled (w.stepped t)).2

lemma Adding.step (h : Adding segment w) (t : ι) : Adding segment (w.step t) := by
  have others : ∀ s, s ≠ t → (w.step t).task s = w.task s := fun s hs => step_task_of_ne hs w
  refine ⟨fun s => ?_, forall_live others h.located fun write hmem => ?_⟩
  · by_cases hs : s = t
    · rw [hs]
      exact ((h.adds t).journaled (w.stepped t)).1
    · rw [others s hs]
      exact h.adds s
  · rcases (h.journaled t).of_mem_live hmem with hmem | ⟨hin, -⟩
    · exact h.located t write hmem
    · exact hin

omit [DecidableEq ι] in
lemma adding_adding (i : KeyIndex) (o : ι → Offering) (records : ι → List Record) :
    Adding (fun t => (o t).segment) (adding i o records) where
  adds _ := ⟨rfl, rfl⟩
  located _ _ hmem := absurd hmem List.not_mem_nil

/-! ## The writes of a key -/

/-- The writes of a key that a task may still have to undo, newest first. -/
def livesOf (w : World ι) (key : IndexKey) (t : ι) : List Write :=
  (w.task t).live.filter fun write => write.key = key

lemma livesOf_of_live_eq (others : ∀ s, s ≠ t → next.task s = w.task s)
    (live : (next.task t).live = (w.task t).live) (key : IndexKey) :
    next.livesOf key = w.livesOf key := by
  funext s
  unfold livesOf
  by_cases hs : s = t
  · rw [hs, live]
  · rw [others s hs]

lemma livesOf_of_live_cons (others : ∀ s, s ≠ t → next.task s = w.task s)
    (live : (next.task t).live = write :: (w.task t).live) :
    next.livesOf write.key =
      Function.update (w.livesOf write.key) t (write :: w.livesOf write.key t) := by
  funext s
  by_cases hs : s = t
  · subst hs
    rw [Function.update_self, livesOf, live, List.filter_cons_of_pos (by simp), livesOf]
  · rw [Function.update_of_ne hs, livesOf, others s hs, livesOf]

lemma livesOf_of_live_cons_of_ne (others : ∀ s, s ≠ t → next.task s = w.task s)
    (live : (next.task t).live = write :: (w.task t).live) {key : IndexKey}
    (h : write.key ≠ key) : next.livesOf key = w.livesOf key := by
  funext s
  by_cases hs : s = t
  · subst hs
    rw [livesOf, live, List.filter_cons_of_neg (by simpa using h), livesOf]
  · rw [livesOf, others s hs, livesOf]

omit [DecidableEq ι] in
lemma livesOf_eq_nil {skipped : List Write} (h : w.task t = .undoing [] skipped)
    (key : IndexKey) : w.livesOf key t = [] := by
  rw [livesOf, h]
  rfl

/-- Whether a write of a key that displaced this entry was passed over. -/
def PassedOver (w : World ι) (key : IndexKey) (x : Option Entry) : Prop :=
  ∃ t, ∃ write ∈ (w.task t).skipped, write.key = key ∧ write.displaced = x

lemma passedOver_of_skipped_eq (others : ∀ s, s ≠ t → next.task s = w.task s)
    (skipped : (next.task t).skipped = (w.task t).skipped) (key : IndexKey) (x : Option Entry) :
    next.PassedOver key x ↔ w.PassedOver key x := by
  have hskipped : ∀ s, (next.task s).skipped = (w.task s).skipped := by
    intro s
    by_cases hs : s = t
    · rw [hs, skipped]
    · rw [others s hs]
  simp only [PassedOver, hskipped]

lemma passedOver_of_skipped_cons (others : ∀ s, s ≠ t → next.task s = w.task s)
    (skipped : (next.task t).skipped = write :: (w.task t).skipped) (key : IndexKey)
    (x : Option Entry) :
    next.PassedOver key x ↔ w.PassedOver key x ∨ write.key = key ∧ write.displaced = x := by
  constructor
  · rintro ⟨s, other, hmem, hother⟩
    by_cases hs : s = t
    · subst hs
      rw [skipped] at hmem
      rcases List.mem_cons.1 hmem with rfl | hmem
      · exact .inr hother
      · exact .inl ⟨s, other, hmem, hother⟩
    · rw [others s hs] at hmem
      exact .inl ⟨s, other, hmem, hother⟩
  · rintro (⟨s, other, hmem, hother⟩ | hwrite)
    · by_cases hs : s = t
      · subst hs
        exact ⟨s, other, by rw [skipped]; exact List.mem_cons_of_mem _ hmem, hother⟩
      · exact ⟨s, other, by rw [others s hs]; exact hmem, hother⟩
    · exact ⟨t, write, by rw [skipped]; exact List.mem_cons_self, hwrite⟩

/-- What a turn of an addition does at one key. -/
inductive TurnAt (segment : ι → SegmentId) (w next : World ι) (t : ι) (key : IndexKey) : Prop
  | idle (same : next.index.get? key = w.index.get? key) (lives : next.livesOf key = w.livesOf key)
    (passed : ∀ x, next.PassedOver key x ↔ w.PassedOver key x)
  | wrote (write : Write) (entry : Entry) (now : next.index.get? key = some entry)
    (hin : entry.location.isIn (segment t) = true)
    (displaced : write.displaced = w.index.get? key)
    (lives : next.livesOf key = Function.update (w.livesOf key) t (write :: w.livesOf key t))
    (passed : ∀ x, next.PassedOver key x ↔ w.PassedOver key x)
  | undone (write : Write) (entry : Entry) (was : w.index.get? key = some entry)
    (hin : entry.location.isIn (segment t) = true) (now : next.index.get? key = write.displaced)
    (lives : w.livesOf key = Function.update (next.livesOf key) t (write :: next.livesOf key t))
    (passed : ∀ x, next.PassedOver key x ↔ w.PassedOver key x)
  | passed (write : Write) (same : next.index.get? key = w.index.get? key)
    (lives : w.livesOf key = Function.update (next.livesOf key) t (write :: next.livesOf key t))
    (passed : ∀ x, next.PassedOver key x ↔ w.PassedOver key x ∨ write.displaced = x)

lemma Adding.turnAt (h : Adding segment w) (t : ι) (key : IndexKey) :
    TurnAt segment w (w.step t) t key := by
  have others : ∀ s, s ≠ t → (w.step t).task s = w.task s := fun s hs => step_task_of_ne hs w
  have others' : ∀ s, s ≠ t → w.task s = (w.step t).task s := fun s hs => (others s hs).symm
  cases h.journaled t with
  | idle entries live skipped =>
    exact .idle (congrFun entries key) (livesOf_of_live_eq others live key)
      (passedOver_of_skipped_eq others skipped key)
  | wrote write entry entries hin _ displaced live skipped =>
    by_cases hkey : write.key = key
    · subst hkey
      refine .wrote write entry ?_ hin displaced (livesOf_of_live_cons others live)
        (passedOver_of_skipped_eq others skipped write.key)
      rw [entries, Function.update_self]
    · refine .idle ?_ (livesOf_of_live_cons_of_ne others live hkey)
        (passedOver_of_skipped_eq others skipped key)
      rw [entries, Function.update_of_ne (Ne.symm hkey)]
  | undone write entry entries hget hsame live skipped =>
    by_cases hkey : write.key = key
    · subst hkey
      refine .undone write entry hget ?_ ?_ (livesOf_of_live_cons others' live)
        (passedOver_of_skipped_eq others skipped write.key)
      · rw [Location.isIn_of_same hsame]
        exact h.located t write (by rw [live]; exact List.mem_cons_self)
      · rw [entries, Function.update_self]
    · refine .idle ?_ (livesOf_of_live_cons_of_ne others' live hkey).symm
        (passedOver_of_skipped_eq others skipped key)
      rw [entries, Function.update_of_ne (Ne.symm hkey)]
  | passed write entries live skipped =>
    have hpassed := passedOver_of_skipped_cons others skipped key
    by_cases hkey : write.key = key
    · subst hkey
      refine .passed write (congrFun entries write.key) (livesOf_of_live_cons others' live) ?_
      simpa only [true_and] using hpassed
    · refine .idle (congrFun entries key) (livesOf_of_live_cons_of_ne others' live hkey).symm ?_
      simpa only [hkey, false_and, or_false] using hpassed

/-! ## The first entry of a key during a run -/

/-- Whether a key points into one of the segments that are added. -/
def Foreign (segment : ι → SegmentId) (x : Option Entry) : Prop :=
  ∃ entry t, x = some entry ∧ entry.location.isIn (segment t) = true

/-- How many of the writes of a key that a task may still undo displaced the first entry. -/
def holding (w : World ι) (key : IndexKey) (first : Option Entry) (t : ι) : Nat :=
  (w.livesOf key t).countP fun write => write.displaced = first

/-- How the first entry of a key stands between two turns. -/
structure Stands (segment : ι → SegmentId) (key : IndexKey) (first : Option Entry)
    (w : World ι) : Prop where
  displaced : ∀ t, ∀ write ∈ w.livesOf key t,
    write.displaced = first ∨ Foreign segment write.displaced
  standing : Standing (Foreign segment) first (w.index.get? key) (w.holding key first)
    (w.PassedOver key first)

omit [DecidableEq ι] in
lemma Stands.current {key : IndexKey} {first : Option Entry} (h : Stands segment key first w) :
    w.index.get? key = first ∨ Foreign segment (w.index.get? key) := by
  cases h.standing with
  | kept there => exact .inl there
  | held _ hcurrent => exact .inr hcurrent
  | gone hcurrent => exact .inr hcurrent

lemma holding_of_lives {key : IndexKey} (first : Option Entry)
    (lives : next.livesOf key = Function.update (w.livesOf key) t (write :: w.livesOf key t)) :
    next.holding key first =
      holdingOneMore (w.holding key first) t write.displaced first := by
  funext s
  rw [holding, lives]
  by_cases hs : s = t
  · subst hs
    rw [Function.update_self, holdingOneMore_self, List.countP_cons, holding]
    simp only [decide_eq_true_eq]
  · rw [Function.update_of_ne hs, holdingOneMore_of_ne hs, holding]

/-- The writes of a key after a turn are those from before, and one more at most. -/
lemma mem_lives_cons {lives : ι → List Write} {s t : ι} {write other : Write}
    (h : other ∈ Function.update lives t (write :: lives t) s) :
    s = t ∧ other = write ∨ other ∈ lives s := by
  by_cases hs : s = t
  · subst hs
    rw [Function.update_self] at h
    exact (List.mem_cons.1 h).imp (fun heq => ⟨rfl, heq⟩) id
  · rw [Function.update_of_ne hs] at h
    exact .inr h

lemma mem_lives_of_cons {lives : ι → List Write} {s t : ι} {write other : Write}
    (h : other ∈ lives s) : other ∈ Function.update lives t (write :: lives t) s := by
  by_cases hs : s = t
  · subst hs
    rw [Function.update_self]
    exact List.mem_cons_of_mem _ h
  · rwa [Function.update_of_ne hs]

lemma TurnAt.of_mem_livesOf {key : IndexKey} (h : TurnAt segment w next t key) {s : ι}
    (hmem : write ∈ next.livesOf key s) :
    write ∈ w.livesOf key s ∨ write.displaced = w.index.get? key := by
  cases h with
  | idle _ lives => exact .inl (by rwa [← lives])
  | wrote other entry _ _ displaced lives =>
    rw [lives] at hmem
    rcases mem_lives_cons hmem with ⟨-, rfl⟩ | hmem
    · exact .inr displaced
    · exact .inl hmem
  | undone _ _ _ _ _ lives => exact .inl (by rw [lives]; exact mem_lives_of_cons hmem)
  | passed _ _ lives => exact .inl (by rw [lives]; exact mem_lives_of_cons hmem)

lemma Stands.step {key : IndexKey} {first : Option Entry}
    (hfresh : ∀ x, Foreign segment x → x ≠ first) (hadding : Adding segment w)
    (h : Stands segment key first w) (t : ι) : Stands segment key first (w.step t) := by
  have hturn := hadding.turnAt t key
  refine ⟨fun s write hmem => ?_, ?_⟩
  · rcases hturn.of_mem_livesOf hmem with hmem | hdisplaced
    · exact h.displaced s write hmem
    · rw [hdisplaced]
      exact h.current
  have hstanding := h.standing
  cases hturn with
  | idle same lives passed =>
    have hholding : (w.step t).holding key first = w.holding key first := by
      funext s
      rw [holding, lives, holding]
    rwa [same, hholding, propext (passed first)]
  | wrote write entry now hin displaced lives passed =>
    rw [now, holding_of_lives first lives, propext (passed first), displaced]
    exact hstanding.wrote hfresh ⟨entry, t, rfl, hin⟩ t
  | undone write entry was hin now lives passed =>
    have hwrite : write ∈ w.livesOf key t := by
      rw [lives, Function.update_self]
      exact List.mem_cons_self
    rw [holding_of_lives first lives] at hstanding
    rw [now, propext (passed first)]
    exact hstanding.undone hfresh ⟨entry, t, was, hin⟩ (h.displaced t write hwrite)
  | passed write same lives passed =>
    rw [holding_of_lives first lives] at hstanding
    rw [same, propext (passed first)]
    exact hstanding.passed

/-- The standing of the first entry at every turn of a run. -/
lemma run_stands {i : KeyIndex} {o : ι → Offering} {key : IndexKey}
    (hfresh : ∀ x, Foreign (fun t => (o t).segment) x → x ≠ i.get? key)
    (records : ι → List Record) (schedule : List ι) :
    Stands (fun t => (o t).segment) key (i.get? key) ((adding i o records).run schedule) := by
  refine (run_induction (motive := fun w => Adding (fun t => (o t).segment) w ∧
    Stands (fun t => (o t).segment) key (i.get? key) w) ?_ schedule ?_).2
  · rintro w t ⟨hadding, hstands⟩
    exact ⟨hadding.step t, hstands.step hfresh hadding t⟩
  · refine ⟨adding_adding i o records, fun t write hmem => absurd hmem List.not_mem_nil, ?_⟩
    refine .kept rfl (fun t => rfl) ?_
    rintro ⟨t, write, hmem, -⟩
    exact absurd hmem List.not_mem_nil

/-! ## Nothing passed over -/

/-- The writes of a key lie on each other: the entry that is there now is of the newest write
of some task, what it displaced is of the newest write below, and at the bottom lies the first
entry. -/
inductive Stacked (segment : ι → SegmentId) (first : Option Entry) :
    (ι → List Write) → Option Entry → Prop
  | bottom (lives : ι → List Write) (h : ∀ t, lives t = []) : Stacked segment first lives first
  | top (lives : ι → List Write) (t : ι) (write : Write) (entry : Entry)
    (hin : entry.location.isIn (segment t) = true)
    (below : Stacked segment first lives write.displaced) :
    Stacked segment first (Function.update lives t (write :: lives t)) (some entry)

/-- A write that is found in place lies on top. -/
lemma Stacked.pop (apart : ∀ s t, (segment s).same (segment t) = true → s = t)
    {first : Option Entry} {lives : ι → List Write} {entry : Entry}
    (h : Stacked segment first (Function.update lives t (write :: lives t)) (some entry))
    (hin : entry.location.isIn (segment t) = true) :
    Stacked segment first lives write.displaced := by
  generalize hcurrent : some entry = current at h
  generalize hall : Function.update lives t (write :: lives t) = all at h
  cases h with
  | bottom _ hempty =>
    have hnil := hempty t
    rw [← hall, Function.update_self] at hnil
    cases hnil
  | top lives' s other entry' hin' below =>
    cases hcurrent
    -- the entry is of both segments, so the write on top is one of the task that undoes
    have hsame : (segment s).same (segment t) = true := by
      simp only [Location.isIn, SegmentId.same, beq_iff_eq] at hin hin' ⊢
      rw [← hin, ← hin']
    obtain rfl := apart s t hsame
    have hhead := congrFun hall s
    rw [Function.update_self, Function.update_self] at hhead
    obtain ⟨rfl, hrest⟩ := List.cons.inj hhead
    have hlives : lives' = lives := by
      funext r
      by_cases hr : r = s
      · rw [hr, hrest]
      · have htail := congrFun hall r
        rw [Function.update_of_ne hr, Function.update_of_ne hr] at htail
        exact htail.symm
    rwa [← hlives]

lemma Stacked.eq_first {first current : Option Entry} {lives : ι → List Write}
    (h : Stacked segment first lives current) (hempty : ∀ t, lives t = []) : current = first := by
  cases h with
  | bottom => rfl
  | top _ t write =>
    have hnil := hempty t
    rw [Function.update_self] at hnil
    cases hnil

lemma Stacked.turn (apart : ∀ s t, (segment s).same (segment t) = true → s = t)
    {key : IndexKey} {first : Option Entry}
    (h : Stacked segment first (w.livesOf key) (w.index.get? key))
    (hturn : TurnAt segment w next t key) (hnone : ∀ x, ¬ next.PassedOver key x) :
    Stacked segment first (next.livesOf key) (next.index.get? key) := by
  cases hturn with
  | idle same lives => rwa [same, lives]
  | wrote write entry now hin displaced lives =>
    rw [now, lives]
    exact .top _ t write entry hin (by rwa [displaced])
  | undone write entry was hin now lives =>
    rw [was, lives] at h
    rw [now]
    exact h.pop apart hin
  | passed write _ _ passed => exact absurd ((passed write.displaced).2 (.inr rfl)) (hnone _)

lemma TurnAt.passedOver {key : IndexKey} {x : Option Entry} (h : TurnAt segment w next t key)
    (hpassed : w.PassedOver key x) : next.PassedOver key x := by
  cases h with
  | idle _ _ passed => exact (passed x).2 hpassed
  | wrote _ _ _ _ _ _ passed => exact (passed x).2 hpassed
  | undone _ _ _ _ _ _ passed => exact (passed x).2 hpassed
  | passed _ _ _ passed => exact (passed x).2 (.inl hpassed)

/-- As long as nothing is passed over, the writes of a key lie on each other. -/
lemma run_stacked {o : ι → Offering}
    (apart : ∀ s t, (o s).segment.same (o t).segment = true → s = t) (i : KeyIndex)
    (records : ι → List Record) (schedule : List ι) {key : IndexKey}
    (hnone : ∀ x, ¬ ((adding i o records).run schedule).PassedOver key x) :
    Stacked (fun t => (o t).segment) (i.get? key)
      (((adding i o records).run schedule).livesOf key)
      (((adding i o records).run schedule).index.get? key) := by
  have hrun := run_induction (motive := fun w => Adding (fun t => (o t).segment) w ∧
    ((∃ x, w.PassedOver key x) ∨ Stacked (fun t => (o t).segment) (i.get? key)
      (w.livesOf key) (w.index.get? key))) ?_ schedule (w := adding i o records) ?_
  · rcases hrun.2 with ⟨x, hpassed⟩ | hstacked
    · exact absurd hpassed (hnone x)
    · exact hstacked
  · rintro w t ⟨hadding, hcase⟩
    have hturn := hadding.turnAt t key
    refine ⟨hadding.step t, ?_⟩
    rcases hcase with ⟨x, hpassed⟩ | hstacked
    · -- what was passed over is never forgotten
      exact .inl ⟨x, hturn.passedOver hpassed⟩
    · by_cases hnext : ∃ x, (w.step t).PassedOver key x
      · exact .inl hnext
      · exact .inr (hstacked.turn apart hturn fun x hx => hnext ⟨x, hx⟩)
  · exact ⟨adding_adding i o records, .inr (.bottom _ fun t => rfl)⟩

/-! ## The result -/

/-- Segments are added at once, and all additions fail and have undone what they could.  A key
of which no write was passed over has the entry from before.  If the index held nothing of the
segments before, then a key has the entry from before exactly if the write that displaced it
was not passed over, and exactly if the key points into none of the segments. -/
theorem failed_adds_leave_no_trace_iff (i : KeyIndex) (o : ι → Offering)
    (records : ι → List Record) (schedule : List ι) (w : World ι)
    (hrun : w = (adding i o records).run schedule)
    (finished : ∀ t, ∃ skipped, w.task t = .undoing [] skipped) (key : IndexKey) :
    ((∀ s t, (o s).segment.same (o t).segment = true → s = t) →
      (∀ x, ¬ w.PassedOver key x) → w.index.get? key = i.get? key) ∧
    ((∀ entry t, i.get? key = some entry → entry.location.isIn (o t).segment = false) →
      (w.index.get? key = i.get? key ↔ ¬ w.PassedOver key (i.get? key)) ∧
      (w.index.get? key = i.get? key ↔ ∀ entry t, w.index.get? key = some entry →
        entry.location.isIn (o t).segment = false)) := by
  have hempty : ∀ t, w.livesOf key t = [] := by
    intro t
    obtain ⟨skipped, htask⟩ := finished t
    exact livesOf_eq_nil htask key
  subst hrun
  refine ⟨fun apart hnone => (run_stacked apart i records schedule hnone).eq_first hempty,
    fun fresh => ?_⟩
  have hfresh : ∀ x, Foreign (fun t => (o t).segment) x → x ≠ i.get? key := by
    rintro x ⟨entry, t, rfl, hin⟩ heq
    rw [fresh entry t heq.symm] at hin
    cases hin
  cases (run_stands hfresh records schedule).standing with
  | kept there _ safe =>
    refine ⟨⟨fun _ => safe, fun _ => there⟩, ⟨fun _ => ?_, fun _ => there⟩⟩
    rw [there]
    exact fresh
  | held holder _ one =>
    -- nothing is left to undo, so nobody holds the first entry
    rw [holding, hempty holder] at one
    cases one
  | gone hcurrent _ hlost =>
    have hne := hfresh _ hcurrent
    refine ⟨⟨fun heq => absurd heq hne, fun hsafe => absurd hlost hsafe⟩,
      ⟨fun heq => absurd heq hne, fun hnone => ?_⟩⟩
    obtain ⟨entry, t, heq, hin⟩ := hcurrent
    rw [hnone entry t heq] at hin
    cases hin

end World

namespace Sample

/-- How the records of a segment are offered to the table. -/
def offering (number : Nat) : Offering :=
  (partition { backend := .sorted {} }).offering (.add (segment number [])) none

/-- Two segments that write key 1 and are then refused, since their next time is a text. -/
def twins : Bool → List Record
  | false => [record 1 0 (.int 5), record 1 1 (.string "now")]
  | true => [record 1 0 (.int 6), record 1 1 (.string "now")]

end Sample

namespace World

open Sample in
/-- Two additions write key 1 one after the other, and the second one undoes first. -/
theorem failed_adds_leave_no_trace_in_reverse :
    (∀ t, ∃ skipped, ((adding { backend := .sorted {} } (fun t => offering t.toNat)
        twins).run [false, false, true, true, true, false]).task t = .undoing [] skipped) ∧
      ((adding { backend := .sorted {} } (fun t => offering t.toNat) twins).run
        [false, false, true, true, true, false]).index.get? (key 1) = none := by
  have finished : ∀ t, ∃ skipped, ((adding { backend := .sorted {} } (fun t => offering t.toNat)
      twins).run [false, false, true, true, true, false]).task t = .undoing [] skipped := by
    intro t
    cases t <;> exact ⟨_, rfl⟩
  refine ⟨finished, ((failed_adds_leave_no_trace_iff { backend := .sorted {} }
    (fun t => offering t.toNat) twins _ _ rfl finished (key 1)).2
    (fun _ _ h => nomatch h)).1.2 ?_⟩
  rintro ⟨t, write, hmem, -⟩
  cases t <;> exact List.not_mem_nil hmem

open Sample in
/-- If the first one undoes first, it passes its write over, and the second one then puts the
entry of the first one back. -/
theorem failed_adds_can_leave_a_trace :
    ¬ ∀ (i : KeyIndex) (o : Bool → Offering) (records : Bool → List Record)
      (schedule : List Bool),
      (∀ s t, (o s).segment.same (o t).segment = true → s = t) →
      (∀ key entry t, i.get? key = some entry → entry.location.isIn (o t).segment = false) →
      (∀ t, ∃ skipped, ((adding i o records).run schedule).task t = .undoing [] skipped) →
      ∀ key, ((adding i o records).run schedule).index.get? key = i.get? key := by
  intro h
  have hkey := h { backend := .sorted {} } (fun t => offering t.toNat) twins
    [false, false, true, true, false, true] (by decide) (fun _ _ _ h => nomatch h)
    (fun t => by cases t <;> exact ⟨_, rfl⟩) (key 1)
  exact absurd hkey (by decide)

end World

end PartitionKeys

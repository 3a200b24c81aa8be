/-
# Several callers close one partition

A partition is stopped, operations are still inside, and any number of callers close it, with
a time limit or without.  A caller passes the gate first.  If the gate makes it the owner of the
close, it releases the index; a release that fails makes it take the close back.  In between,
operations leave the gate, and other callers come, wait, wake up, or run out of time.

A caller that finds the gate marked is told at once that the partition is closed already, whoever
has set the mark.  It may be a caller that still waits, one whose release is going to fail, or one
that has unwound and is not going to release anything.  The main statement says what such a
success is worth: `ok_means_closed_iff`.  What a caller does when nobody comes between its steps
is what closing the partition does, `beginClose_alone` and its companions.
-/
import PartitionKeys.Partition.Shutdown
import PartitionKeys.Proofs.Interleaving.Lobby
import Mathlib.Data.Multiset.MapFold

namespace PartitionKeys

/-- A partition that is being closed. -/
structure Shutdown (ι : Type) where
  lobby : Lobby ι
  index : KeyIndex
  /-- The owners that are about to release the index. -/
  releasing : Multiset ι := 0
  /-- The owners whose release has failed and that are about to take the close back. -/
  failed : Multiset (ι × IndexError) := 0
  /-- The owners whose release has succeeded. -/
  finished : Multiset ι := 0
  /-- The owners that have unwound out of their release. -/
  unwound : Multiset ι := 0

/-- What happens to a partition that is being closed. -/
inductive CloseEvent (ι : Type) where
  | atGate (event : GateEvent ι)
  /-- An operation that is still inside changes the index, or a fault of it comes or goes. -/
  | indexChanged
  | released (thread : ι)
  | notReleased (thread : ι) (error : IndexError)
  /-- An owner takes the close back after its release has failed. -/
  | withdrawn (thread : ι) (error : IndexError)
  /-- An owner unwinds out of its release. -/
  | unwound (thread : ι)

/-- Whom an event at the gate makes an owner. -/
def GateEvent.drained {ι : Type} : GateEvent ι → Multiset ι
  | .answered t (.ok .drained) => {t}
  | _ => 0

/-- The result of a call of close, if the call ends with this event. -/
def CloseEvent.result? {ι : Type} : CloseEvent ι → Option CloseResult
  | .atGate (.answered _ (.error e)) => some (.error (.gate e))
  | .atGate (.answered _ (.ok .alreadyClosed)) => some (.ok ())
  | .released _ => some (.ok ())
  | .withdrawn _ e => some (.error (.index e))
  | _ => none

/-- Whether a closer unwinds. -/
def CloseEvent.unwinds {ι : Type} : CloseEvent ι → Bool
  | .atGate (.unwound _) | .unwound _ => true
  | _ => false

/-- The result of a closer that does not have to wait. -/
def CloserState.result? : CloserState → Option CloseResult
  | .finished result => some result
  | .waiting => none

/-- A call of close succeeds in two ways. -/
lemma CloseEvent.of_succeeds {ι : Type} {event : CloseEvent ι}
    (h : event.result? = some (.ok ())) :
    (∃ t, event = .atGate (.answered t (.ok .alreadyClosed))) ∨ ∃ t, event = .released t := by
  match event, h with
  | .atGate (.answered t (.ok .alreadyClosed)), _ => exact .inl ⟨t, rfl⟩
  | .released t, _ => exact .inr ⟨t, rfl⟩

lemma CloseEvent.not_unwinds_of_succeeds {ι : Type} {event : CloseEvent ι}
    (h : event.result? = some (.ok ())) : event.unwinds = false := by
  rcases of_succeeds h with ⟨t, rfl⟩ | ⟨t, rfl⟩ <;> rfl

namespace Shutdown

variable {ι : Type} [DecidableEq ι] {c d e : Shutdown ι} {event : CloseEvent ι}
  {events : List (CloseEvent ι)}

/-- A stopped partition with operations inside. -/
def stopped (inside : Multiset ι) (index : KeyIndex) : Shutdown ι where
  lobby := { gate := ⟨true, false, inside.card⟩, inside }
  index

/-- Nobody is inside, and the index has been released. -/
def IsReleased (c : Shutdown ι) (events : List (CloseEvent ι)) : Prop :=
  c.lobby.inside = 0 ∧ ∃ t, .released t ∈ events

/-- No closer waits, is about to release the index, or is about to take its close back. -/
def IsSettled (c : Shutdown ι) : Prop := c.lobby.waiting = 0 ∧ c.releasing = 0 ∧ c.failed = 0

/-- The closers that have unwound, at the gate or out of their release. -/
def stranded (c : Shutdown ι) : Multiset ι := c.lobby.unwound + c.unwound

/-- What happens in one go.  The gate gives a close back only to an owner whose release has
failed.  An owner that unwinds leaves the index as it may be by then. -/
inductive Step : Shutdown ι → CloseEvent ι → Shutdown ι → Prop
  | atGate (c : Shutdown ι) (event : GateEvent ι) (lobby : Lobby ι)
    (h : c.lobby.Step event lobby) (hkept : ∀ t, event ≠ .reopened t) :
    Step c (.atGate event) { c with lobby, releasing := event.drained + c.releasing }
  | indexChanged (c : Shutdown ι) (index : KeyIndex) : Step c .indexChanged { c with index }
  | released (c : Shutdown ι) (t : ι) (index : KeyIndex) (hmem : t ∈ c.releasing)
    (h : c.index.close = (.ok (), index)) :
    Step c (.released t)
      { c with index, releasing := c.releasing.erase t, finished := t ::ₘ c.finished }
  | notReleased (c : Shutdown ι) (t : ι) (error : IndexError) (index : KeyIndex)
    (hmem : t ∈ c.releasing) (h : c.index.close = (.error error, index)) :
    Step c (.notReleased t error)
      { c with index, releasing := c.releasing.erase t, failed := (t, error) ::ₘ c.failed }
  | withdrawn (c : Shutdown ι) (t : ι) (error : IndexError) (lobby : Lobby ι)
    (hmem : (t, error) ∈ c.failed) (h : c.lobby.Step (.reopened t) lobby) :
    Step c (.withdrawn t error) { c with lobby, failed := c.failed.erase (t, error) }
  | unwound (c : Shutdown ι) (t : ι) (index : KeyIndex) (hmem : t ∈ c.releasing) :
    Step c (.unwound t)
      { c with index, releasing := c.releasing.erase t, unwound := t ::ₘ c.unwound }

/-- One thing happens after the other. -/
inductive Run : Shutdown ι → List (CloseEvent ι) → Shutdown ι → Prop
  | nil (c : Shutdown ι) : Run c [] c
  | cons {c d e : Shutdown ι} {event : CloseEvent ι} {events : List (CloseEvent ι)}
    (step : Step c event d) (run : Run d events e) : Run c (event :: events) e

/-! ## Who owns the close -/

section

variable {ι : Type} {c : Shutdown ι}

/-- Owners at the gate are the callers that release the index, or have tried. -/
structure Sound (c : Shutdown ι) : Prop where
  lobby : c.lobby.Sound
  owners : c.lobby.owners =
    c.releasing + Multiset.map Prod.fst c.failed + c.finished + c.unwound

lemma sound_stopped (inside : Multiset ι) (index : KeyIndex) : Sound (stopped inside index) :=
  ⟨⟨rfl, rfl, nofun, nofun⟩, rfl⟩

/-- Once the index has been released, nobody is inside. -/
lemma Sound.inside_eq_zero (h : c.Sound) (hfinished : c.finished ≠ 0) : c.lobby.inside = 0 := by
  refine h.lobby.drained ?_
  rw [h.owners, ← Multiset.card_pos, Multiset.card_add, Multiset.card_add]
  have hpos := Multiset.card_pos.2 hfinished
  omega

/-- At a gate that is marked, the close has succeeded unless somebody is still at it or has
unwound. -/
lemma Sound.finished_iff (h : c.Sound) (hclosed : c.lobby.gate.closed = true) :
    c.lobby.inside = 0 ∧ c.finished ≠ 0 ↔ c.IsSettled ∧ c.stranded = 0 := by
  -- the mark stands for one closer: it waits, releases, has failed, finished, or unwound
  have hmarked := h.lobby.marked
  rw [hclosed, Bool.toNat_true, h.owners] at hmarked
  simp only [Multiset.card_add, Multiset.card_map] at hmarked
  constructor
  · rintro ⟨-, hfinished⟩
    have hpos := Multiset.card_pos.2 hfinished
    simp only [IsSettled, stranded, ← Multiset.card_eq_zero, Multiset.card_add]
    omega
  · rintro ⟨⟨hwaiting, hreleasing, hfailed⟩, hstranded⟩
    simp only [hwaiting, hreleasing, hfailed, Multiset.card_zero] at hmarked
    rw [stranded, ← Multiset.card_eq_zero, Multiset.card_add] at hstranded
    have hfinished : c.finished ≠ 0 := Multiset.card_pos.1 (by omega)
    exact ⟨h.inside_eq_zero hfinished, hfinished⟩

end

end Shutdown

/-- Only a closer that is told that all is drained becomes an owner. -/
lemma Lobby.Step.owners_eq {ι : Type} [DecidableEq ι] {l m : Lobby ι} {event : GateEvent ι}
    (hstep : l.Step event m) (hkept : ∀ t, event ≠ .reopened t) :
    m.owners = event.drained + l.owners := by
  cases hstep with
  | entered | turnedAway | left | stopped | stoppedBefore | refused | alreadyClosed | waits
  | woke | gaveUp | overflowed | brokenOff => exact (Multiset.zero_add _).symm
  | drained | wokeDrained => exact (Multiset.singleton_add _ _).symm
  | justInTime w hmem limited status gate hgate =>
    obtain ⟨-, rfl, -⟩ := Gate.of_giveUp_ok hgate
    exact (Multiset.singleton_add _ _).symm
  | reopened t => exact absurd rfl (hkept t)

namespace Shutdown

variable {ι : Type} [DecidableEq ι] {c d e : Shutdown ι} {event : CloseEvent ι}
  {events : List (CloseEvent ι)}

lemma Sound.step (h : c.Sound) (hstep : c.Step event d) : d.Sound := by
  have howners := h.owners
  cases hstep with
  | atGate event lobby hstep hkept =>
    refine ⟨h.lobby.step hstep, ?_⟩
    simp only [hstep.owners_eq hkept, howners, Multiset.add_assoc]
  | indexChanged => exact ⟨h.lobby, howners⟩
  | released t index hmem =>
    obtain ⟨rest, hrest⟩ := Multiset.exists_cons_of_mem hmem
    refine ⟨h.lobby, ?_⟩
    simp only [howners, hrest, Multiset.erase_cons_head, Multiset.cons_add, Multiset.add_cons]
  | notReleased t error index hmem =>
    obtain ⟨rest, hrest⟩ := Multiset.exists_cons_of_mem hmem
    refine ⟨h.lobby, ?_⟩
    simp only [howners, hrest, Multiset.erase_cons_head, Multiset.map_cons, Multiset.cons_add,
      Multiset.add_cons]
  | withdrawn t error lobby hmem hstep =>
    obtain ⟨rest, hrest⟩ := Multiset.exists_cons_of_mem hmem
    refine ⟨h.lobby.step hstep, ?_⟩
    cases hstep
    simp only [howners, hrest, Multiset.erase_cons_head, Multiset.map_cons, Multiset.cons_add,
      Multiset.add_cons]
  | unwound t index hmem =>
    obtain ⟨rest, hrest⟩ := Multiset.exists_cons_of_mem hmem
    refine ⟨h.lobby, ?_⟩
    simp only [howners, hrest, Multiset.erase_cons_head, Multiset.cons_add, Multiset.add_cons]

lemma Sound.run (h : c.Sound) (hrun : Run c events d) : d.Sound := by
  induction hrun with
  | nil => exact h
  | cons step _ ih => exact ih (h.step step)

lemma Step.finished_iff (hstep : c.Step event d) :
    d.finished ≠ 0 ↔ c.finished ≠ 0 ∨ ∃ t, event = .released t := by
  cases hstep <;> simp

lemma Run.finished_iff (hrun : Run c events d) :
    d.finished ≠ 0 ↔ c.finished ≠ 0 ∨ ∃ t, .released t ∈ events := by
  induction hrun with
  | nil => simp
  | cons step _ ih =>
    rw [ih, step.finished_iff]
    simp only [List.mem_cons, exists_or, or_assoc, eq_comm]

/-- A closer that has unwound is there for good, since its mark keeps all others away. -/
lemma Step.stranded_iff (hstep : c.Step event d) :
    d.stranded ≠ 0 ↔ c.stranded ≠ 0 ∨ event.unwinds = true := by
  cases hstep with
  | atGate event lobby hstep => cases hstep <;> simp [stranded, CloseEvent.unwinds]
  | indexChanged | released | notReleased => simp [stranded, CloseEvent.unwinds]
  | withdrawn t error lobby hmem hstep =>
    cases hstep
    simp [stranded, CloseEvent.unwinds]
  | unwound => simp [stranded, CloseEvent.unwinds]

lemma Run.stranded_iff (hrun : Run c events d) :
    d.stranded ≠ 0 ↔ c.stranded ≠ 0 ∨ ∃ earlier ∈ events, earlier.unwinds = true := by
  induction hrun with
  | nil => simp
  | cons step _ ih =>
    rw [ih, step.stranded_iff]
    simp only [List.mem_cons, exists_eq_or_imp, or_assoc]

lemma Run.concat (hrun : Run c events d) (hstep : d.Step event e) :
    Run c (events ++ [event]) e := by
  induction hrun with
  | nil => exact .cons hstep (.nil e)
  | cons step _ ih => exact .cons step (ih hstep)

/-! ## A closer on its own -/

/-- The gate and the index are those of this partition. -/
structure Shows (c : Shutdown ι) (p : Partition) : Prop where
  gate : c.lobby.gate = p.gate
  index : c.index = p.index

/-- The result of a call that does these things. -/
def result? (events : List (CloseEvent ι)) : Option CloseResult :=
  events.getLast?.bind CloseEvent.result?

omit [DecidableEq ι] in
lemma result?_cons {result : CloseResult} (h : result? events = some result) :
    result? (event :: events) = some result := by
  obtain ⟨last, hlast, hresult⟩ := Option.bind_eq_some_iff.1 h
  simp [result?, List.getLast?_cons, hlast, hresult]

variable {p : Partition}

/-- An owner releases the index, or fails to and takes the close back. -/
lemma release_alone (sound : c.Sound) (h : c.Shows p) {t : ι} (hmem : t ∈ c.releasing) :
    ∃ events d, Run c events d ∧ d.Shows p.release.2 ∧ result? events = some p.release.1 := by
  unfold Partition.release
  dsimp only [Partition.report]
  rcases hclose : p.index.close with ⟨e | _, index⟩
  · have howner : t ∈ c.lobby.owners := by simp [sound.owners, hmem]
    exact ⟨_, _, .cons (.notReleased c t e index hmem (h.index ▸ hclose))
      (.cons (.withdrawn _ t e _ (Multiset.mem_cons_self _ _) (.reopened _ t howner)) (.nil _)),
      ⟨congrArg Gate.reopen h.gate, rfl⟩, rfl⟩
  · exact ⟨_, _, .cons (.released c t index hmem (h.index ▸ hclose)) (.nil _), ⟨h.gate, rfl⟩, rfl⟩

/-- A closer comes. -/
lemma beginClose_alone (sound : c.Sound) (h : c.Shows p) (w : Waiter ι) :
    ∃ events d, Run c events d ∧ d.Shows p.beginClose.2 ∧
      result? events = p.beginClose.1.result? := by
  unfold Partition.beginClose
  rcases henter : p.gate.enterCloser with ⟨entry, gate⟩
  cases entry with
  | refused e =>
    have hstep := Lobby.Step.refused c.lobby w.thread e gate (h.gate ▸ henter)
    exact ⟨_, _, .cons (.atGate c _ _ hstep nofun) (.nil _), ⟨rfl, h.index⟩, rfl⟩
  | finished status =>
    cases status with
    | alreadyClosed =>
      have hstep := Lobby.Step.alreadyClosed c.lobby w.thread gate (h.gate ▸ henter)
      exact ⟨_, _, .cons (.atGate c _ _ hstep nofun) (.nil _), ⟨rfl, h.index⟩, rfl⟩
    | drained =>
      have hstep := Step.atGate c _ _
        (.drained c.lobby w.thread gate (h.gate ▸ henter)) nofun
      obtain ⟨events, d, hrun, hshows, hresult⟩ :=
        release_alone (p := { p with gate }) (sound.step hstep) ⟨rfl, h.index⟩
          (Multiset.mem_cons_self w.thread c.releasing)
      exact ⟨_, d, .cons hstep hrun, hshows, result?_cons hresult⟩
  | waiting pending =>
    have hstep := Lobby.Step.waits c.lobby w pending gate (h.gate ▸ henter)
    exact ⟨_, _, .cons (.atGate c _ _ hstep nofun) (.nil _), ⟨rfl, h.index⟩, rfl⟩

/-- A closer comes whose time limit ends after the last instant there is. -/
lemma closeOverflowing_alone (h : c.Shows p) (t : ι) :
    ∃ events d, Run c events d ∧ d.Shows p.closeOverflowing.2 ∧
      result? events = p.closeOverflowing.1 := by
  unfold Partition.closeOverflowing
  rcases hanswer : p.gate.enterOverflowing with ⟨_ | answer, gate⟩
  · have hstep := Lobby.Step.overflowed c.lobby t gate (h.gate ▸ hanswer)
    exact ⟨_, _, .cons (.atGate c _ _ hstep nofun) (.nil _), ⟨rfl, h.index⟩, rfl⟩
  · rcases Gate.enterCloser_of_answered hanswer with ⟨e, rfl, henter⟩ | ⟨rfl, henter⟩
    · have hstep := Lobby.Step.refused c.lobby t e gate (h.gate ▸ henter)
      exact ⟨_, _, .cons (.atGate c _ _ hstep nofun) (.nil _), ⟨rfl, h.index⟩, rfl⟩
    · have hstep := Lobby.Step.alreadyClosed c.lobby t gate (h.gate ▸ henter)
      exact ⟨_, _, .cons (.atGate c _ _ hstep nofun) (.nil _), ⟨rfl, h.index⟩, rfl⟩

/-- A closer that waits wakes up. -/
lemma resumeClose_alone (sound : c.Sound) (h : c.Shows p) {w : Waiter ι}
    (hmem : w ∈ c.lobby.waiting) :
    ∃ events d, Run c events d ∧ d.Shows p.resumeClose.2 ∧
      result? events = p.resumeClose.1.result? := by
  unfold Partition.resumeClose
  split
  · next hdrained =>
    have hstep := Step.atGate c _ _ (.wokeDrained c.lobby w hmem (h.gate ▸ hdrained)) nofun
    obtain ⟨events, d, hrun, hshows, hresult⟩ :=
      release_alone (p := p) (sound.step hstep) ⟨h.gate, h.index⟩
        (Multiset.mem_cons_self w.thread c.releasing)
    exact ⟨_, d, .cons hstep hrun, hshows, result?_cons hresult⟩
  · next hbusy =>
    have hbusy : c.lobby.gate.isDrained = false := by simpa [h.gate] using hbusy
    exact ⟨_, _, .cons (.atGate c _ _ (.woke c.lobby w hmem hbusy) nofun) (.nil _),
      ⟨h.gate, h.index⟩, rfl⟩

/-- A closer that waits runs out of time. -/
lemma abandonClose_alone (sound : c.Sound) (h : c.Shows p) {w : Waiter ι}
    (hmem : w ∈ c.lobby.waiting) (limited : w.limited = true) :
    ∃ events d, Run c events d ∧ d.Shows p.abandonClose.2 ∧
      result? events = some p.abandonClose.1 := by
  unfold Partition.abandonClose
  rcases hgive : p.gate.giveUp with ⟨e | status, gate⟩
  · have hstep := Lobby.Step.gaveUp c.lobby w hmem limited e gate (h.gate ▸ hgive)
    exact ⟨_, _, .cons (.atGate c _ _ hstep nofun) (.nil _), ⟨rfl, h.index⟩, rfl⟩
  · have hstep := Step.atGate c _ _
      (.justInTime c.lobby w hmem limited status gate (h.gate ▸ hgive)) nofun
    obtain ⟨-, rfl, -⟩ := Gate.of_giveUp_ok hgive
    obtain ⟨events, d, hrun, hshows, hresult⟩ :=
      release_alone (p := { p with gate }) (sound.step hstep) ⟨rfl, h.index⟩
        (Multiset.mem_cons_self w.thread c.releasing)
    exact ⟨_, d, .cons hstep hrun, hshows, result?_cons hresult⟩

/-! ## What a success is worth -/

/-- Whoever is told that the partition is closed finds the gate marked, and so does an owner
that has released the index. -/
lemma Sound.closed_of_succeeds (h : c.Sound) (hstep : c.Step event d)
    (hsucceeds : event.result? = some (.ok ())) : d.lobby.gate.closed = true := by
  cases hstep with
  | atGate event lobby hstep =>
    cases hstep with
    | alreadyClosed t gate hgate =>
      cases Gate.found_of_eq hgate with
      | marked hstopped hclosed => exact hclosed
    | justInTime w hmem limited status gate hgate =>
      obtain ⟨-, rfl, -⟩ := Gate.of_giveUp_ok hgate
      cases hsucceeds
    | entered | turnedAway | left | stopped | stoppedBefore | refused | drained | waits | woke
    | wokeDrained | gaveUp | overflowed | brokenOff | reopened => cases hsucceeds
  | released t index hmem =>
    have howned : c.lobby.owners ≠ 0 := by
      obtain ⟨rest, hrest⟩ := Multiset.exists_cons_of_mem hmem
      simp [h.owners, hrest]
    exact (h.lobby.of_owned howned).1
  | indexChanged | notReleased | withdrawn | unwound => cases hsucceeds

/-- **A close that succeeds.**  A call that succeeds because it has released the index leaves
nobody inside.  Whichever call succeeds, nobody is inside and the index has been released
exactly if no other closer waits, is about to release the index, or is about to take its close
back, and no closer has ever unwound. -/
theorem ok_means_closed_iff {inside : Multiset ι} {index : KeyIndex}
    (run : Run (stopped inside index) events c) (step : c.Step event d)
    (succeeds : event.result? = some (.ok ())) :
    ((∀ t, event ≠ .atGate (.answered t (.ok .alreadyClosed))) →
      d.IsReleased (events ++ [event])) ∧
    (d.IsReleased (events ++ [event]) ↔
      d.IsSettled ∧ ∀ earlier ∈ events, earlier.unwinds = false) := by
  have hrun := run.concat step
  have sound := (sound_stopped inside index).run run
  have hclosed := sound.closed_of_succeeds step succeeds
  have hfinished : d.finished ≠ 0 ↔ ∃ t, .released t ∈ events ++ [event] := by
    simpa [stopped] using hrun.finished_iff
  refine ⟨fun hnot => ?_, ?_⟩
  · obtain ⟨t, rfl⟩ : ∃ t, event = .released t := by
      rcases CloseEvent.of_succeeds succeeds with ⟨t, rfl⟩ | hreleased
      · exact absurd rfl (hnot t)
      · exact hreleased
    have hreleased : ∃ s, .released s ∈ events ++ [.released t] := ⟨t, by simp⟩
    refine ⟨(sound.step step).inside_eq_zero (hfinished.2 hreleased), hreleased⟩
  · have hstranded : d.stranded = 0 ↔ ∀ earlier ∈ events, earlier.unwinds = false := by
      have hnow := CloseEvent.not_unwinds_of_succeeds succeeds
      rw [← not_iff_not, ← ne_eq, step.stranded_iff, run.stranded_iff]
      simp [hnow, stopped, stranded]
    rw [IsReleased, ← hfinished, ← hstranded]
    exact (sound.step step).finished_iff hclosed

end Shutdown

/-- An index whose first close fails. -/
def stubborn : KeyIndex := { backend := .sorted {}, failingCloses := 1 }

/-- Closer 1 waits for operation 0 and closer 2 is told that all is closed already; closer 1
fails to release the index, and closer 2 comes again. -/
def retry : List (CloseEvent Nat) :=
  [.atGate (.waits 1), .atGate (.answered 2 (.ok .alreadyClosed)), .atGate (.left 0),
    .atGate (.answered 1 (.ok .drained)), .notReleased 1 (.release "close 0 failed"),
    .withdrawn 1 (.release "close 0 failed"), .atGate (.answered 2 (.ok .drained))]

/-- Closer 2 is about to release the index. -/
def retried : Shutdown Nat where
  lobby := { gate := ⟨true, true, 0⟩, owners := {2} }
  index := { stubborn with closeCalls := 1 }
  releasing := {2}

lemma run_retry : Shutdown.Run (.stopped {0} stubborn) retry retried := by
  refine .cons (.atGate _ _ _ (.waits _ ⟨1, false⟩ 1 _ rfl) nofun) ?_
  refine .cons (.atGate _ _ _ (.alreadyClosed _ 2 _ rfl) nofun) ?_
  refine .cons (.atGate _ _ _ (.left _ 0 (by simp [Shutdown.stopped])) nofun) ?_
  refine .cons (.atGate _ _ _ (.wokeDrained _ ⟨1, false⟩ (by simp) rfl) nofun) ?_
  refine .cons (.notReleased _ 1 _ _ (by simp [GateEvent.drained]) rfl) ?_
  refine .cons (.withdrawn _ 1 _ _ (by simp) (.reopened _ 1 (by simp))) ?_
  exact .cons (.atGate _ _ _ (.drained _ 2 _ rfl) nofun) (.nil _)

/-- Operation 0 is inside, and closer 1 has unwound. -/
def forsaken : Shutdown Nat where
  lobby := { gate := ⟨true, true, 1⟩, inside := {0}, unwound := {1} }
  index := stubborn

lemma run_forsaken : Shutdown.Run (.stopped {0} stubborn) [.atGate (.unwound 1)] forsaken :=
  .cons (.atGate _ _ _ (.overflowed _ 1 _ rfl) nofun) (.nil _)

/-- The second attempt releases the index.  Where a closer has unwound, another one is told that
all is closed although nobody is at the close, and the index has not been released. -/
theorem ok_means_closed_iff_retry :
    (∃ d, Shutdown.Run (.stopped {0} stubborn) retry retried ∧ retried.Step (.released 2) d ∧
      d.IsReleased (retry ++ [.released 2]) ∧ d.IsSettled) ∧
    ∃ d, Shutdown.Run (.stopped {0} stubborn) [.atGate (.unwound 1)] forsaken ∧
      forsaken.Step (.atGate (.answered 2 (.ok .alreadyClosed))) d ∧ d.IsSettled ∧
      ¬d.IsReleased [.atGate (.unwound 1), .atGate (.answered 2 (.ok .alreadyClosed))] := by
  constructor
  · have hstep := Shutdown.Step.released retried 2 _ (Multiset.mem_singleton_self 2) rfl
    obtain ⟨hreleased, hiff⟩ := Shutdown.ok_means_closed_iff run_retry hstep rfl
    exact ⟨_, run_retry, hstep, hreleased nofun, (hiff.1 (hreleased nofun)).1⟩
  · have hstep := Shutdown.Step.atGate forsaken _ _ (.alreadyClosed _ 2 _ rfl) nofun
    obtain ⟨-, hiff⟩ := Shutdown.ok_means_closed_iff run_forsaken hstep rfl
    refine ⟨_, run_forsaken, hstep, ⟨rfl, rfl, rfl⟩, fun hreleased => ?_⟩
    have hkept := (hiff.1 hreleased).2 (.atGate (.unwound 1)) (List.mem_singleton_self _)
    exact Bool.noConfusion hkept

/-- Closer 1 waits for operation 0. -/
def parked : Shutdown Nat where
  lobby := { gate := ⟨true, true, 1⟩, inside := {0}, waiting := {⟨1, false⟩} }
  index := stubborn

/-- A closer is told that all is closed already while another one still waits for an
operation. -/
theorem ok_can_come_too_early :
    ¬ ∀ (inside : Multiset Nat) (index : KeyIndex) (events : List (CloseEvent Nat))
      (c : Shutdown Nat) (event : CloseEvent Nat) (d : Shutdown Nat),
      Shutdown.Run (.stopped inside index) events c → c.Step event d →
      event.result? = some (.ok ()) → d.IsReleased (events ++ [event]) := by
  intro h
  have hrun : Shutdown.Run (.stopped {0} stubborn) [.atGate (.waits 1)] parked :=
    .cons (.atGate _ _ _ (.waits _ ⟨1, false⟩ 1 _ rfl) nofun) (.nil _)
  have hstep := Shutdown.Step.atGate parked _ _ (.alreadyClosed _ 2 _ rfl) nofun
  obtain ⟨hempty, -⟩ := h _ _ _ _ _ _ hrun hstep rfl
  exact Multiset.singleton_ne_zero 0 hempty

end PartitionKeys

/-
# Threads at a gate

Any number of threads come to a gate, one after the other and in any order: they go in and
out, stop the gate, close it, and take a close back.  A closer that has to wait comes, wakes
up and runs out of time in steps of its own, and it may wake up for no reason.  A `Lobby` is a
gate with those who hold a permit, those who wait, and those whom a close has made its owner;
a `Lobby.Step` is what one thread does in one go, with what it learns.

A closer may also unwind once it has marked the gate, when it works out the end of its time limit
or when it reports that it waits.  It takes its mark back neither then nor later.

Two facts carry everything, `Lobby.Sound`: the gate counts the permits, and its mark stands for
exactly one closer, who waits, owns the close, or has unwound.  The main statement is
`gate_is_safe`.
-/
import PartitionKeys.Gate
import Mathlib.Data.Multiset.AddSub
import Mathlib.Tactic.Common

namespace PartitionKeys

/-! ## What the gate does -/

namespace Gate

variable {g next : Gate}

/-- Only an open gate lets anybody in. -/
lemma of_enter? (h : g.enter? = some next) :
    g.stopped = false ∧ next = { g with pending := g.pending + 1 } := by
  unfold enter? at h
  split at h
  · cases h
  · next hopen =>
    cases h
    simp only [Bool.or_eq_true, beq_iff_eq, not_or, Bool.not_eq_true] at hopen
    exact ⟨hopen.1, rfl⟩

lemma of_stop? (h : g.stop? = some next) :
    g.stopped = false ∧ next = { g with stopped := true, pending := g.pending - 1 } := by
  unfold stop? at h
  split at h
  · cases h
  · next hopen =>
    cases h
    exact ⟨by simpa using hopen, rfl⟩

/-- What a closer finds when it comes. -/
inductive Found (g : Gate) : CloserEntry × Gate → Prop
  | notStopped (h : g.stopped = false) : Found g (.refused .notStopped, g)
  | marked (hstopped : g.stopped = true) (h : g.closed = true) :
    Found g (.finished .alreadyClosed, g)
  | empty (hstopped : g.stopped = true) (hclosed : g.closed = false) (h : g.pending = 0) :
    Found g (.finished .drained, { g with closed := true })
  | busy (hstopped : g.stopped = true) (hclosed : g.closed = false) (h : g.pending ≠ 0) :
    Found g (.waiting g.pending, { g with closed := true })

lemma found (g : Gate) : Found g g.enterCloser := by
  unfold enterCloser
  split
  · next h => exact .notStopped (by simpa using h)
  next hstopped =>
  have hstopped : g.stopped = true := by simpa using hstopped
  split
  · next h => exact .marked hstopped h
  next hclosed =>
  have hclosed : g.closed = false := by simpa using hclosed
  split
  · next h => exact .empty hstopped hclosed h
  · next h => exact .busy hstopped hclosed h

lemma found_of_eq {entry : CloserEntry × Gate} (h : g.enterCloser = entry) : Found g entry :=
  h ▸ g.found

/-- A closer that unwinds when it comes has found the gate stopped and without a mark. -/
lemma of_enterOverflowing (h : g.enterOverflowing = (none, next)) :
    g.stopped = true ∧ g.closed = false ∧ next = { g with closed := true } := by
  have hfound := g.found
  unfold enterOverflowing at h
  generalize g.enterCloser = entry at hfound h
  cases hfound with
  | notStopped | marked => cases h
  | empty hstopped hclosed | busy hstopped hclosed =>
    cases h
    exact ⟨hstopped, hclosed, rfl⟩

/-- A closer that is answered although it comes with such a limit is answered like any other. -/
lemma enterCloser_of_answered {answer : Except GateError CloseStatus}
    (h : g.enterOverflowing = (some answer, next)) :
    (∃ e, answer = .error e ∧ g.enterCloser = (.refused e, next)) ∨
      answer = .ok .alreadyClosed ∧ g.enterCloser = (.finished .alreadyClosed, next) := by
  unfold enterOverflowing at h
  split at h
  · next e gate hgate =>
    cases h
    exact .inl ⟨e, rfl, hgate⟩
  · next gate hgate =>
    cases h
    exact .inr ⟨rfl, hgate⟩
  · cases h
  · cases h

lemma stopped_enterCloser (g : Gate) : g.enterCloser.2.stopped = g.stopped := by
  have hfound := g.found
  generalize g.enterCloser = entry at hfound ⊢
  cases hfound <;> rfl

lemma stopped_giveUp (g : Gate) : g.giveUp.2.stopped = g.stopped := by
  unfold giveUp
  split <;> rfl

lemma stopped_reopen (g : Gate) : g.reopen.stopped = g.stopped := by
  unfold reopen
  split <;> rfl

lemma isDrained_iff : g.isDrained = true ↔ g.pending = 0 := by simp [isDrained]

lemma of_giveUp_ok {status : CloseStatus} (h : g.giveUp = (.ok status, next)) :
    g.pending = 0 ∧ status = .drained ∧ next = g := by
  unfold giveUp at h
  split at h
  · next hpending =>
    cases h
    exact ⟨hpending, rfl, rfl⟩
  · cases h

lemma of_giveUp_error {e : GateError} (h : g.giveUp = (.error e, next)) :
    g.pending ≠ 0 ∧ e = .drainTimeout g.pending ∧ next = { g with closed := false } := by
  unfold giveUp at h
  split at h
  · cases h
  · next hpending =>
    cases h
    exact ⟨hpending, rfl, rfl⟩

end Gate

/-! ## The lobby -/

/-- A closer that waits. -/
structure Waiter (ι : Type) where
  thread : ι
  /-- Whether its time can run out. -/
  limited : Bool
deriving DecidableEq

/-- A gate with the threads that it concerns. -/
structure Lobby (ι : Type) where
  gate : Gate := {}
  /-- The permits that are out, each with the thread that holds it. -/
  inside : Multiset ι := 0
  waiting : Multiset (Waiter ι) := 0
  /-- The closers that were told that all is drained, and have not taken that back. -/
  owners : Multiset ι := 0
  /-- The closers that have unwound after they had marked the gate. -/
  unwound : Multiset ι := 0

namespace Lobby

variable {ι : Type}

/-- The gate counts the permits and one more while it is open, and its mark stands for exactly
one closer, even if that one has unwound; where somebody owns the close, nobody is inside. -/
structure Sound (l : Lobby ι) : Prop where
  counted : l.gate.pending = l.inside.card + (!l.gate.stopped).toNat
  marked : l.waiting.card + l.owners.card + l.unwound.card = l.gate.closed.toNat
  stopped : l.gate.closed = true → l.gate.stopped = true
  drained : l.owners ≠ 0 → l.inside = 0

namespace Sound

variable {l : Lobby ι}

lemma fresh : Sound ({} : Lobby ι) := ⟨rfl, rfl, nofun, nofun⟩

/-- A gate with a count of zero has nobody inside. -/
lemma inside_eq_zero (h : l.Sound) (hpending : l.gate.pending = 0) : l.inside = 0 := by
  have hcounted := h.counted
  rw [← Multiset.card_eq_zero]
  omega

/-- Where a closer waits or owns the close, it is the only one, and none has unwound. -/
lemma only_closer (h : l.Sound) (hpos : 0 < l.waiting.card + l.owners.card) :
    l.gate.closed = true ∧ l.waiting.card + l.owners.card + l.unwound.card = 1 := by
  have hmarked := h.marked
  cases hclosed : l.gate.closed with
  | false =>
    rw [hclosed, Bool.toNat_false] at hmarked
    omega
  | true =>
    rw [hclosed, Bool.toNat_true] at hmarked
    exact ⟨rfl, hmarked⟩

lemma of_mem_waiting (h : l.Sound) {w : Waiter ι} (hmem : w ∈ l.waiting) :
    l.gate.closed = true ∧ l.waiting.card = 1 ∧ l.owners = 0 ∧ l.unwound = 0 := by
  have hpos := Multiset.card_pos_iff_exists_mem.2 ⟨w, hmem⟩
  obtain ⟨hclosed, hone⟩ := h.only_closer (by omega)
  exact ⟨hclosed, by omega, Multiset.card_eq_zero.1 (by omega),
    Multiset.card_eq_zero.1 (by omega)⟩

/-- An owner is alone at a gate that is stopped and empty. -/
lemma of_owned (h : l.Sound) (howned : l.owners ≠ 0) :
    l.gate.closed = true ∧ l.waiting = 0 ∧ l.owners.card = 1 ∧ l.unwound = 0 ∧
      l.gate.stopped = true ∧ l.gate.pending = 0 := by
  have hpos := Multiset.card_pos.2 howned
  obtain ⟨hclosed, hone⟩ := h.only_closer (by omega)
  have hstopped := h.stopped hclosed
  have hcounted := h.counted
  rw [h.drained howned, hstopped] at hcounted
  exact ⟨hclosed, Multiset.card_eq_zero.1 (by omega), by omega, Multiset.card_eq_zero.1 (by omega),
    hstopped, hcounted⟩

end Sound

/-! ## Steps -/

end Lobby

/-- What a thread does at the gate, with what it learns. -/
inductive GateEvent (ι : Type) where
  | entered (thread : ι)
  | turnedAway (thread : ι)
  /-- A permit is given back, whether its operation has ended well or not. -/
  | left (thread : ι)
  | stopped (thread : ι) (pending : Option Nat)
  /-- A closer comes and has to wait. -/
  | waits (thread : ι)
  /-- A closer wakes up and goes on waiting. -/
  | woke (thread : ι)
  /-- A closer is done. -/
  | answered (thread : ι) (answer : Except GateError CloseStatus)
  /-- A closer that has marked the gate unwinds. -/
  | unwound (thread : ι)
  | reopened (thread : ι)

namespace Lobby

variable {ι : Type} [DecidableEq ι] {l m n : Lobby ι} {event : GateEvent ι}
  {events : List (GateEvent ι)}

/-- What one thread does in one go.  All that is asked of threads is that they give back
permits that they have, and that only an owner takes a close back.  A closer whose time limit ends
after the last instant there is unwinds, and so may one that waits, out of its report. -/
inductive Step : Lobby ι → GateEvent ι → Lobby ι → Prop
  | entered (l : Lobby ι) (t : ι) (gate : Gate) (h : l.gate.enter? = some gate) :
    Step l (.entered t) { l with gate, inside := t ::ₘ l.inside }
  | turnedAway (l : Lobby ι) (t : ι) (h : l.gate.enter? = none) : Step l (.turnedAway t) l
  | left (l : Lobby ι) (t : ι) (h : t ∈ l.inside) :
    Step l (.left t) { l with gate := l.gate.leave, inside := l.inside.erase t }
  | stopped (l : Lobby ι) (t : ι) (gate : Gate) (h : l.gate.stop? = some gate) :
    Step l (.stopped t (some gate.pending)) { l with gate }
  | stoppedBefore (l : Lobby ι) (t : ι) (h : l.gate.stop? = none) : Step l (.stopped t none) l
  | refused (l : Lobby ι) (t : ι) (e : GateError) (gate : Gate)
    (h : l.gate.enterCloser = (.refused e, gate)) : Step l (.answered t (.error e)) { l with gate }
  | alreadyClosed (l : Lobby ι) (t : ι) (gate : Gate)
    (h : l.gate.enterCloser = (.finished .alreadyClosed, gate)) :
    Step l (.answered t (.ok .alreadyClosed)) { l with gate }
  | drained (l : Lobby ι) (t : ι) (gate : Gate)
    (h : l.gate.enterCloser = (.finished .drained, gate)) :
    Step l (.answered t (.ok .drained)) { l with gate, owners := t ::ₘ l.owners }
  | waits (l : Lobby ι) (w : Waiter ι) (pending : Nat) (gate : Gate)
    (h : l.gate.enterCloser = (.waiting pending, gate)) :
    Step l (.waits w.thread) { l with gate, waiting := w ::ₘ l.waiting }
  | woke (l : Lobby ι) (w : Waiter ι) (hmem : w ∈ l.waiting) (h : l.gate.isDrained = false) :
    Step l (.woke w.thread) l
  | wokeDrained (l : Lobby ι) (w : Waiter ι) (hmem : w ∈ l.waiting)
    (h : l.gate.isDrained = true) :
    Step l (.answered w.thread (.ok .drained))
      { l with waiting := l.waiting.erase w, owners := w.thread ::ₘ l.owners }
  | gaveUp (l : Lobby ι) (w : Waiter ι) (hmem : w ∈ l.waiting) (limited : w.limited = true)
    (e : GateError) (gate : Gate) (h : l.gate.giveUp = (.error e, gate)) :
    Step l (.answered w.thread (.error e)) { l with gate, waiting := l.waiting.erase w }
  | justInTime (l : Lobby ι) (w : Waiter ι) (hmem : w ∈ l.waiting) (limited : w.limited = true)
    (status : CloseStatus) (gate : Gate) (h : l.gate.giveUp = (.ok status, gate)) :
    Step l (.answered w.thread (.ok status))
      { l with gate, waiting := l.waiting.erase w, owners := w.thread ::ₘ l.owners }
  | overflowed (l : Lobby ι) (t : ι) (gate : Gate) (h : l.gate.enterOverflowing = (none, gate)) :
    Step l (.unwound t) { l with gate, unwound := t ::ₘ l.unwound }
  | brokenOff (l : Lobby ι) (w : Waiter ι) (hmem : w ∈ l.waiting) :
    Step l (.unwound w.thread)
      { l with waiting := l.waiting.erase w, unwound := w.thread ::ₘ l.unwound }
  | reopened (l : Lobby ι) (t : ι) (h : t ∈ l.owners) :
    Step l (.reopened t) { l with gate := l.gate.reopen, owners := l.owners.erase t }

/-- Threads do one thing after the other. -/
inductive Run : Lobby ι → List (GateEvent ι) → Lobby ι → Prop
  | nil (l : Lobby ι) : Run l [] l
  | cons {l m n : Lobby ι} {event : GateEvent ι} {events : List (GateEvent ι)}
    (step : Step l event m) (run : Run m events n) : Run l (event :: events) n

lemma run_append_iff {first rest : List (GateEvent ι)} :
    Run l (first ++ rest) n ↔ ∃ m, Run l first m ∧ Run m rest n := by
  constructor
  · intro h
    induction first generalizing l with
    | nil => exact ⟨l, .nil l, h⟩
    | cons event first ih =>
      obtain ⟨⟩ | ⟨step, run⟩ := h
      obtain ⟨m, hfirst, hrest⟩ := ih run
      exact ⟨m, .cons step hfirst, hrest⟩
  · rintro ⟨m, hfirst, hrest⟩
    induction hfirst with
    | nil => exact hrest
    | cons step _ ih => exact .cons step (ih hrest)

/-- A run with an event in it has come to that event and gone on from there. -/
lemma run_split {before after : List (GateEvent ι)}
    (h : Run l (before ++ event :: after) n) :
    ∃ k m, Run l before k ∧ Step k event m ∧ Run m after n := by
  obtain ⟨k, hbefore, hrest⟩ := run_append_iff.1 h
  cases hrest with
  | cons step run => exact ⟨k, _, hbefore, step, run⟩

/-- What every step keeps, every run keeps. -/
lemma Run.keeps {P : Lobby ι → Prop} (h : Run l events n)
    (hstep : ∀ {l event m}, Step l event m → P l → P m) (start : P l) : P n := by
  induction h with
  | nil => exact start
  | cons step _ ih => exact ih (hstep step start)

/-! ## What every step keeps -/

namespace Sound

/-- A closer that waits becomes the owner once the count is zero. -/
lemma owned_of_waiting (h : l.Sound) {w : Waiter ι} (hmem : w ∈ l.waiting)
    (hpending : l.gate.pending = 0) :
    Sound { l with waiting := l.waiting.erase w, owners := w.thread ::ₘ l.owners } := by
  have herase := Multiset.card_erase_add_one hmem
  have hmarked := h.marked
  refine ⟨h.counted, ?_, h.stopped, fun _ => h.inside_eq_zero hpending⟩
  simp only [Multiset.card_cons]
  omega

lemma step (h : l.Sound) (hstep : l.Step event m) : m.Sound := by
  have hcounted := h.counted
  have hmarked := h.marked
  cases hstep with
  | entered t gate hgate =>
    obtain ⟨hstopped, rfl⟩ := Gate.of_enter? hgate
    refine ⟨?_, hmarked, h.stopped, fun howned => ?_⟩
    · simp only [hcounted, Multiset.card_cons]
      omega
    · -- an open gate has no owner
      obtain ⟨-, -, -, -, hshut, -⟩ := h.of_owned howned
      rw [hshut] at hstopped
      cases hstopped
  | turnedAway => exact h
  | left t hmem =>
    have herase := Multiset.card_erase_add_one hmem
    refine ⟨?_, hmarked, h.stopped, fun howned => ?_⟩
    · simp only [Gate.leave, hcounted]
      omega
    · rw [h.drained howned] at hmem
      exact absurd hmem (Multiset.notMem_zero t)
  | stopped t gate hgate =>
    obtain ⟨hstopped, rfl⟩ := Gate.of_stop? hgate
    refine ⟨?_, hmarked, fun _ => rfl, h.drained⟩
    simp [hcounted, hstopped]
  | stoppedBefore => exact h
  | refused t e gate hgate =>
    cases Gate.found_of_eq hgate
    exact h
  | alreadyClosed t gate hgate =>
    cases Gate.found_of_eq hgate
    exact h
  | drained t gate hgate =>
    cases Gate.found_of_eq hgate with
    | empty hstopped hclosed hpending =>
      refine ⟨hcounted, ?_, fun _ => hstopped, fun _ => h.inside_eq_zero hpending⟩
      rw [hclosed, Bool.toNat_false] at hmarked
      simp only [Multiset.card_cons, Bool.toNat_true]
      omega
  | waits w pending gate hgate =>
    cases Gate.found_of_eq hgate with
    | busy hstopped hclosed =>
      refine ⟨hcounted, ?_, fun _ => hstopped, h.drained⟩
      rw [hclosed, Bool.toNat_false] at hmarked
      simp only [Multiset.card_cons, Bool.toNat_true]
      omega
  | woke => exact h
  | wokeDrained w hmem hdrained => exact h.owned_of_waiting hmem (Gate.isDrained_iff.1 hdrained)
  | gaveUp w hmem limited e gate hgate =>
    -- the closer that gives up is the one that the mark stood for
    obtain ⟨-, hone, howners, hunwound⟩ := h.of_mem_waiting hmem
    have herase := Multiset.card_erase_add_one hmem
    obtain ⟨-, -, rfl⟩ := Gate.of_giveUp_error hgate
    refine ⟨hcounted, ?_, nofun, h.drained⟩
    simp only [howners, hunwound, Multiset.card_zero, Bool.toNat_false]
    omega
  | justInTime w hmem limited status gate hgate =>
    obtain ⟨hpending, -, rfl⟩ := Gate.of_giveUp_ok hgate
    exact h.owned_of_waiting hmem hpending
  | overflowed t gate hgate =>
    obtain ⟨hstopped, hclosed, rfl⟩ := Gate.of_enterOverflowing hgate
    refine ⟨hcounted, ?_, fun _ => hstopped, h.drained⟩
    rw [hclosed, Bool.toNat_false] at hmarked
    simp only [Multiset.card_cons, Bool.toNat_true]
    omega
  | brokenOff w hmem =>
    have herase := Multiset.card_erase_add_one hmem
    refine ⟨hcounted, ?_, h.stopped, h.drained⟩
    simp only [Multiset.card_cons]
    omega
  | reopened t hmem =>
    have howned : l.owners ≠ 0 := fun hzero => Multiset.notMem_zero t (hzero ▸ hmem)
    obtain ⟨-, hwaiting, hone, hunwound, -, hpending⟩ := h.of_owned howned
    have herase := Multiset.card_erase_add_one hmem
    have hreopen : l.gate.reopen = { l.gate with closed := false } := if_pos hpending
    rw [hreopen]
    refine ⟨hcounted, ?_, nofun, fun _ => h.drained howned⟩
    simp only [hwaiting, hunwound, Multiset.card_zero, Bool.toNat_false]
    omega

lemma run (h : l.Sound) (hrun : Run l events m) : m.Sound :=
  hrun.keeps (fun hstep hsound => hsound.step hstep) h

/-- A closer is told that all is drained only where nobody owns the close; then it owns it. -/
lemma of_drained (h : l.Sound) {t : ι} (hstep : l.Step (.answered t (.ok .drained)) m) :
    l.owners = 0 ∧ t ∈ m.owners := by
  cases hstep with
  | drained t gate hgate =>
    cases Gate.found_of_eq hgate with
    | empty hstopped hclosed =>
      have hmarked := h.marked
      rw [hclosed, Bool.toNat_false] at hmarked
      exact ⟨Multiset.card_eq_zero.1 (by omega), Multiset.mem_cons_self t _⟩
  | wokeDrained w hmem | justInTime w hmem =>
    obtain ⟨-, -, howners, -⟩ := h.of_mem_waiting hmem
    exact ⟨howners, Multiset.mem_cons_self _ _⟩

/-- A closer that runs out of time tells the count and takes its mark back. -/
lemma of_timeout (h : l.Sound) {t : ι} {pending : Nat}
    (hstep : l.Step (.answered t (.error (.drainTimeout pending))) m) :
    1 ≤ pending ∧ pending = l.gate.pending ∧ m.gate.pending = pending ∧ m.inside = l.inside ∧
      m.gate.phase = .stopping := by
  cases hstep with
  | refused t e gate hgate =>
    cases Gate.found_of_eq hgate
  | gaveUp w hmem limited e gate hgate =>
    have hstopped := h.stopped (h.of_mem_waiting hmem).1
    obtain ⟨hpending, htold, rfl⟩ := Gate.of_giveUp_error hgate
    cases htold
    exact ⟨Nat.one_le_iff_ne_zero.2 hpending, rfl, rfl, rfl, by simp [Gate.phase, hstopped]⟩

end Sound

namespace Step

/-- A gate that is stopped stays so and lets nobody in. -/
lemma of_stopped (hstep : l.Step event m) (h : l.gate.stopped = true) :
    m.gate.stopped = true ∧ (∀ t, event ≠ .entered t) ∧ (l.inside = 0 → m.inside = 0) := by
  cases hstep with
  | entered t gate hgate =>
    rw [(Gate.of_enter? hgate).1] at h
    cases h
  | stopped t gate hgate =>
    rw [(Gate.of_stop? hgate).1] at h
    cases h
  | turnedAway | stoppedBefore | woke | wokeDrained | brokenOff => exact ⟨h, nofun, id⟩
  | left t hmem => exact ⟨h, nofun, fun hzero => by simp [hzero]⟩
  | refused t e gate hgate | alreadyClosed t gate hgate | drained t gate hgate
  | waits w pending gate hgate =>
    have hgates := l.gate.stopped_enterCloser
    rw [hgate] at hgates
    exact ⟨hgates.trans h, nofun, id⟩
  | gaveUp w hmem limited e gate hgate | justInTime w hmem limited status gate hgate =>
    have hgates := l.gate.stopped_giveUp
    rw [hgate] at hgates
    exact ⟨hgates.trans h, nofun, id⟩
  | overflowed t gate hgate =>
    obtain ⟨-, -, rfl⟩ := Gate.of_enterOverflowing hgate
    exact ⟨h, nofun, id⟩
  | reopened t hmem => exact ⟨l.gate.stopped_reopen.trans h, nofun, id⟩

lemma stops {t : ι} {pending : Option Nat} (hstep : l.Step (.stopped t pending) m) :
    m.gate.stopped = true := by
  cases hstep with
  | stopped t gate hgate =>
    rw [(Gate.of_stop? hgate).2]
  | stoppedBefore t hgate => simpa [Gate.stop?] using hgate

/-- An owner stays one until it takes the close back. -/
lemma owns (hstep : l.Step event m) {t : ι} (hmem : t ∈ l.owners) (hkept : event ≠ .reopened t) :
    t ∈ m.owners := by
  cases hstep with
  | entered | turnedAway | left | stopped | stoppedBefore | refused | alreadyClosed | waits
  | woke | gaveUp | overflowed | brokenOff => exact hmem
  | drained | wokeDrained | justInTime => exact Multiset.mem_cons_of_mem hmem
  | reopened s =>
    have hne : t ≠ s := by
      rintro rfl
      exact hkept rfl
    exact (Multiset.mem_erase_of_ne hne).2 hmem

end Step

namespace Run

lemma stopped (h : Run l events m) (hstopped : l.gate.stopped = true) :
    m.gate.stopped = true ∧ (l.inside = 0 → m.inside = 0) := by
  induction h with
  | nil => exact ⟨hstopped, id⟩
  | cons step _ ih =>
    obtain ⟨hstill, -, hempty⟩ := step.of_stopped hstopped
    exact ⟨(ih hstill).1, fun hzero => (ih hstill).2 (hempty hzero)⟩

lemma not_entered (h : Run l events m) (hstopped : l.gate.stopped = true) (t : ι) :
    .entered t ∉ events := by
  induction h with
  | nil => exact List.not_mem_nil
  | cons step _ ih =>
    obtain ⟨hstill, hnot, -⟩ := step.of_stopped hstopped
    intro hmem
    rcases List.mem_cons.1 hmem with heq | hmem
    · exact hnot t heq.symm
    · exact ih hstill hmem

lemma owns (h : Run l events m) {t : ι} (hmem : t ∈ l.owners) (hkept : .reopened t ∉ events) :
    t ∈ m.owners := by
  induction h with
  | nil => exact hmem
  | cons step _ ih =>
    rw [List.mem_cons, not_or] at hkept
    exact ih (step.owns hmem (Ne.symm hkept.1)) hkept.2

end Run

/-- **The gate is safe.**  In every run of any number of threads from a fresh gate, the count
is that of the permits and one more while the gate is open, and whoever takes one off it finds
one there.  Nobody enters after a stop.  Once a closer was told that all is drained, the gate
is stopped and nobody is inside, then and for ever after; and before another closer is told so,
the first one has taken its close back.  A closer that runs out of time tells a count of at
least one, leaves it as it is and brings the gate back to stopping. -/
theorem gate_is_safe (run : Run {} events l) :
    l.gate.pending = l.inside.card + (!l.gate.stopped).toNat ∧
      (∀ t m, l.Step (.left t) m → m.gate.pending + 1 = l.gate.pending) ∧
      (∀ t pending m, l.Step (.stopped t (some pending)) m →
        m.gate.pending = pending ∧ pending + 1 = l.gate.pending) ∧
      (∀ before t pending after, events = before ++ .stopped t pending :: after →
        ∀ s, .entered s ∉ after) ∧
      (∀ t, .answered t (.ok .drained) ∈ events → l.gate.stopped = true ∧ l.inside = 0) ∧
      (∀ before s between t after, events = before ++ .answered s (.ok .drained) ::
        (between ++ .answered t (.ok .drained) :: after) → .reopened s ∈ between) ∧
      ∀ t pending m, l.Step (.answered t (.error (.drainTimeout pending))) m →
        1 ≤ pending ∧ pending = l.gate.pending ∧ m.gate.pending = pending ∧
          m.inside = l.inside ∧ m.gate.phase = .stopping := by
  have sound := Sound.fresh.run run
  refine ⟨sound.counted, ?_, ?_, ?_, ?_, ?_, fun t pending m => sound.of_timeout⟩
  · intro t m hstep
    cases hstep with
    | left t hmem =>
      have hpos := Multiset.card_pos_iff_exists_mem.2 ⟨t, hmem⟩
      have hcounted := sound.counted
      simp only [Gate.leave]
      omega
  · intro t pending m hstep
    cases hstep with
    | stopped t gate hgate =>
      obtain ⟨hopen, rfl⟩ := Gate.of_stop? hgate
      have hcounted := sound.counted
      rw [hopen, Bool.not_false, Bool.toNat_true] at hcounted
      refine ⟨rfl, ?_⟩
      dsimp only
      omega
  · rintro before t pending after rfl s
    obtain ⟨k, m, -, hstep, hafter⟩ := run_split run
    exact hafter.not_entered hstep.stops s
  · intro t hmem
    obtain ⟨before, after, rfl⟩ := List.append_of_mem hmem
    obtain ⟨k, m, hbefore, hstep, hafter⟩ := run_split run
    have hk := Sound.fresh.run hbefore
    have hm := hk.step hstep
    have howned : m.owners ≠ 0 := fun hzero =>
      Multiset.notMem_zero t (hzero ▸ (hk.of_drained hstep).2)
    obtain ⟨-, -, -, -, hshut, -⟩ := hm.of_owned howned
    obtain ⟨hstopped, hempty⟩ := hafter.stopped hshut
    exact ⟨hstopped, hempty (hm.drained howned)⟩
  · rintro before s between t after rfl
    obtain ⟨k, m, hbefore, hfirst, hrest⟩ := run_split run
    obtain ⟨k', m', hbetween, hsecond, -⟩ := run_split hrest
    have hk := Sound.fresh.run hbefore
    -- an owner that has kept the close would still be there when the second one is told
    by_contra hkept
    have howns := hbetween.owns (hk.of_drained hfirst).2 hkept
    rw [(((hk.step hfirst).run hbetween).of_drained hsecond).1] at howns
    exact Multiset.notMem_zero s howns

end Lobby

/-- An operation is inside while the gate is stopped; one closer gives up and another one waits
for the operation, takes its close back, and the first one tries again. -/
def handover : List (GateEvent Nat) :=
  [.entered 0, .stopped 1 (some 1), .turnedAway 2, .waits 3, .woke 3,
    .answered 3 (.error (.drainTimeout 1)), .waits 4, .answered 3 (.ok .alreadyClosed), .left 0,
    .answered 4 (.ok .drained), .reopened 4, .answered 3 (.ok .drained)]

lemma run_handover : Lobby.Run {} handover { gate := ⟨true, true, 0⟩, owners := {3} } := by
  refine .cons (.entered _ 0 _ rfl) ?_
  refine .cons (.stopped _ 1 ⟨true, false, 1⟩ rfl) ?_
  refine .cons (.turnedAway _ 2 rfl) ?_
  refine .cons (.waits _ ⟨3, true⟩ _ _ rfl) ?_
  refine .cons (.woke _ ⟨3, true⟩ (by simp) rfl) ?_
  refine .cons (.gaveUp _ ⟨3, true⟩ (by simp) rfl _ _ rfl) ?_
  refine .cons (.waits _ ⟨4, false⟩ _ _ rfl) ?_
  refine .cons (.alreadyClosed _ 3 _ rfl) ?_
  refine .cons (.left _ 0 (by simp)) ?_
  refine .cons (.wokeDrained _ ⟨4, false⟩ (by simp) rfl) ?_
  refine .cons (.reopened _ 4 (by simp)) ?_
  exact .cons (.drained _ 3 _ rfl) (.nil _)

/-- After the handover nobody is inside, and the first close that was drained had been taken
back before the second one. -/
theorem gate_is_safe_handover :
    ∃ l, Lobby.Run {} handover l ∧ l.gate.pending = l.inside.card + (!l.gate.stopped).toNat ∧
      l.inside = 0 ∧
      ∀ before s between t after, handover = before ++ .answered s (.ok .drained) ::
        (between ++ .answered t (.ok .drained) :: after) → .reopened s ∈ between := by
  obtain ⟨hcounted, -, -, -, hdrained, hexclusive, -⟩ := Lobby.gate_is_safe run_handover
  exact ⟨_, run_handover, hcounted, (hdrained 3 (by simp [handover])).2, hexclusive⟩

end PartitionKeys

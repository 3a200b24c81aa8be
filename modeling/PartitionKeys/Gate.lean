/-
# The gate of a partition

Every operation passes the gate on its way in and again when it is done.  Stopping shuts the
way in; closing waits until the last operation is done.  The gate counts the operations
inside, and one more while it is not stopped, so that it is empty only after both.

Closing is a sequence of steps, since other operations run while a closer waits: the closer
enters and marks the gate, wakes up whenever the count may have reached zero, and gives up
when its time has run out.  When that will be is worked out once the gate is marked; if there is
no instant so late, the closer unwinds and leaves its mark behind.
-/

namespace PartitionKeys

/-- The state that is visible from outside. -/
inductive Phase where
  | opened
  | stopping
  | closed
deriving DecidableEq, Repr

/-- The name of a phase. -/
def Phase.name : Phase → String
  | .opened => "open"
  | .stopping => "stopping"
  | .closed => "closed"

/-- Why a gate cannot be closed. -/
inductive GateError where
  | notStopped
  /-- So many operations were not done in time. -/
  | drainTimeout (pending : Nat)
deriving DecidableEq, Repr

/-- The text of a refusal to close. -/
def GateError.message : GateError → String
  | .notStopped => "must stop the metadata manager before closing it"
  | .drainTimeout pending =>
    "gave up waiting for " ++ toString pending ++ " pending operations to finish"

/-- How closing succeeds. -/
inductive CloseStatus where
  /-- All operations are done; the caller must release what they used. -/
  | drained
  | alreadyClosed
deriving DecidableEq, Repr

/-- The name of a way to succeed. -/
def CloseStatus.name : CloseStatus → String
  | .drained => "Drained"
  | .alreadyClosed => "AlreadyClosed"

/-- The gate. -/
structure Gate where
  stopped : Bool := false
  closed : Bool := false
  /-- The operations inside, and one more while the gate is not stopped. -/
  pending : Nat := 1
deriving DecidableEq, Repr

/-- What a closer finds when it enters. -/
inductive CloserEntry where
  | refused (error : GateError)
  | finished (status : CloseStatus)
  /-- Operations are inside; the closer has marked the gate and waits. -/
  | waiting (pending : Nat)
deriving DecidableEq, Repr

namespace Gate

/-- The phase of a gate. -/
def phase (g : Gate) : Phase :=
  if g.stopped then if g.closed then .closed else .stopping else .opened

/-- Lets an operation in, unless the gate is stopped or empty. -/
def enter? (g : Gate) : Option Gate :=
  if g.stopped || g.pending == 0 then none else some { g with pending := g.pending + 1 }

/-- Lets an operation out. -/
def leave (g : Gate) : Gate := { g with pending := g.pending - 1 }

/-- Stops the gate, unless it is stopped. -/
def stop? (g : Gate) : Option Gate :=
  if g.stopped then none else some { g with stopped := true, pending := g.pending - 1 }

/-- A closer comes.  The first one marks the gate, so that others find it closed already. -/
def enterCloser (g : Gate) : CloserEntry × Gate :=
  if !g.stopped then (.refused .notStopped, g)
  else if g.closed then (.finished .alreadyClosed, g)
  else if g.pending = 0 then (.finished .drained, { g with closed := true })
  else (.waiting g.pending, { g with closed := true })

/-- A closer comes with a time limit that ends after the last instant there is.  If it marks the
gate, it unwinds right after that and finds nothing; if not, it has no use for its limit and is
answered like any other. -/
def enterOverflowing (g : Gate) : Option (Except GateError CloseStatus) × Gate :=
  match g.enterCloser with
  | (.refused e, gate) => (some (.error e), gate)
  | (.finished .alreadyClosed, gate) => (some (.ok .alreadyClosed), gate)
  | (.finished .drained, gate) | (.waiting _, gate) => (none, gate)

/-- Whether a waiting closer that wakes up may go on. -/
def isDrained (g : Gate) : Bool := g.pending == 0

/-- A waiting closer runs out of time: it takes its mark back, unless the gate is empty after
all. -/
def giveUp (g : Gate) : Except GateError CloseStatus × Gate :=
  if g.pending = 0 then (.ok .drained, g)
  else (.error (.drainTimeout g.pending), { g with closed := false })

/-- Takes the mark of a finished closer back, so that closing can be tried again. -/
def reopen (g : Gate) : Gate := if g.pending = 0 then { g with closed := false } else g

end Gate

end PartitionKeys

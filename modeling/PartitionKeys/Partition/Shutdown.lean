/-
# Stopping and closing

A stopped partition admits no operation.  Closing it waits for the operations inside and then
releases the index; a release that fails can be tried again.  A closer that has to wait
stops between its steps, so that other operations can run meanwhile.
-/
import PartitionKeys.Partition.Basic

namespace PartitionKeys

/-- The result of closing. -/
abbrev CloseResult := Except Failure Unit

/-- How far a closer has come. -/
inductive CloserState where
  | finished (result : CloseResult)
  /-- It waits for operations to leave the gate. -/
  | waiting

namespace Partition

/-- Stops admitting operations; doing so again is only reported. -/
def stop (p : Partition) : Partition :=
  match p.gate.stop? with
  | some gate => { p with gate }.report (.stopped gate.pending p.size)
  | none => p.report .alreadyStopped

/-- Releases the index once the gate is empty. -/
def release (p : Partition) : CloseResult × Partition :=
  let p := p.report (.closing p.size)
  match p.index.close with
  | (.error e, index) => (.error (.index e), { p with index, gate := p.gate.reopen })
  | (.ok (), index) => (.ok (), ({ p with index }.setGauge 0).report .closed)

/-- Goes on with closing when the gate has let a closer through. -/
def closeWith (p : Partition) : Except GateError CloseStatus → CloseResult × Partition
  | .error e => (.error (.gate e), p)
  | .ok .alreadyClosed => (.ok (), p.report .alreadyClosed)
  | .ok .drained => p.release

/-- The first step of closing. -/
def beginClose (p : Partition) : CloserState × Partition :=
  match p.gate.enterCloser with
  | (.refused e, gate) =>
    let (result, p) := closeWith { p with gate } (.error e)
    (.finished result, p)
  | (.finished status, gate) =>
    let (result, p) := closeWith { p with gate } (.ok status)
    (.finished result, p)
  | (.waiting pending, gate) => (.waiting, { p with gate }.report (.waiting pending))

/-- Closes the partition within a time limit that ends after the last instant there is.  Without a
result the closer has unwound. -/
def closeOverflowing (p : Partition) : Option CloseResult × Partition :=
  match p.gate.enterOverflowing with
  | (some answer, gate) =>
    let (result, p) := closeWith { p with gate } answer
    (some result, p)
  | (none, gate) => (none, { p with gate })

/-- A waiting closer wakes up: it goes on if the gate is empty, and waits again if not. -/
def resumeClose (p : Partition) : CloserState × Partition :=
  if p.gate.isDrained then
    let (result, p) := p.release
    (.finished result, p)
  else (.waiting, p.report (.waiting p.gate.pending))

/-- A waiting closer runs out of time. -/
def abandonClose (p : Partition) : CloseResult × Partition :=
  let (result, gate) := p.gate.giveUp
  closeWith { p with gate } result

/-- Closes the partition without waiting for anyone. -/
def closeNow (p : Partition) : CloseResult × Partition :=
  match p.beginClose with
  | (.finished result, p) => (result, p)
  | (.waiting, p) => p.abandonClose

end Partition

end PartitionKeys

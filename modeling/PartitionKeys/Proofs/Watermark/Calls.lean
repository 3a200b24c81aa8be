/-
# Calls of a store and their answers

A store is loaded, persisted and deleted.  The store in memory answers the watermark that was
persisted last since it was deleted last, or the default.  The store in a file answers the same
if its path is fresh.
-/
import PartitionKeys.Proofs.Watermark.Steps

namespace PartitionKeys

/-- A call of a store. -/
inductive StoreCall where
  | load (default : Binary64)
  | persist (time : Binary64)
  | delete
deriving DecidableEq, Repr

/-- What a call answers if it succeeds. -/
inductive StoreAnswer where
  | watermark (time : Binary64)
  | done
deriving DecidableEq, Repr

namespace MemoryStore

/-- The answer of a call, and the store after it. -/
def call (s : MemoryStore) : StoreCall → StoreAnswer × MemoryStore
  | .load default => (.watermark (s.load default), s)
  | .persist time => (.done, s.persist time)
  | .delete => (.done, s.delete)

/-- The answers of one call after the other. -/
def answers (s : MemoryStore) : List StoreCall → List StoreAnswer
  | [] => []
  | call :: rest => (s.call call).1 :: (s.call call).2.answers rest

end MemoryStore

namespace FileStore

/-- The answer of a call, and the file system after it. -/
def call (s : FileStore) (fs : FileSystem) :
    StoreCall → Except StoreError StoreAnswer × FileSystem
  | .load default => ((s.load fs default).map .watermark, fs)
  | .persist time => ((s.persist fs time).1.map fun _ => .done, (s.persist fs time).2)
  | .delete => ((s.delete fs).1.map fun _ => .done, (s.delete fs).2)

/-- The answers of one call after the other. -/
def answers (s : FileStore) (fs : FileSystem) :
    List StoreCall → List (Except StoreError StoreAnswer)
  | [] => []
  | call :: rest => (s.call fs call).1 :: s.answers (s.call fs call).2 rest

end FileStore

/-! ## What the store in memory answers -/

namespace StoreCall

/-- The watermark that a call persists. -/
def persisted? : StoreCall → Option Binary64
  | .persist time => some time
  | _ => none

/-- The watermark that was persisted last since the watermark was deleted last. -/
def lastPersisted (before : List StoreCall) : Option Binary64 :=
  (before.reverse.takeWhile (· ≠ .delete)).findSome? persisted?

/-- What a call is to answer after others. -/
def answerAfter (before : List StoreCall) : StoreCall → StoreAnswer
  | .load default => .watermark ((lastPersisted before).getD default)
  | .persist _ => .done
  | .delete => .done

@[simp] lemma lastPersisted_load (before : List StoreCall) (default : Binary64) :
    lastPersisted (before ++ [.load default]) = lastPersisted before := by
  simp [lastPersisted, List.findSome?_cons, persisted?]

@[simp] lemma lastPersisted_persist (before : List StoreCall) (time : Binary64) :
    lastPersisted (before ++ [.persist time]) = some time := by
  simp [lastPersisted, List.findSome?_cons, persisted?]

@[simp] lemma lastPersisted_delete (before : List StoreCall) :
    lastPersisted (before ++ [.delete]) = none := by
  simp [lastPersisted]

end StoreCall

namespace MemoryStore

variable {s : MemoryStore} {before : List StoreCall}

lemma call_eq (h : s.value = StoreCall.lastPersisted before) (call : StoreCall) :
    (s.call call).1 = call.answerAfter before ∧
      (s.call call).2.value = StoreCall.lastPersisted (before ++ [call]) := by
  cases call with
  | load default => simp [MemoryStore.call, MemoryStore.load, StoreCall.answerAfter, h]
  | persist time => simp [MemoryStore.call, MemoryStore.persist, StoreCall.answerAfter]
  | delete => simp [MemoryStore.call, MemoryStore.delete, StoreCall.answerAfter]

lemma answers_after (h : s.value = StoreCall.lastPersisted before) (calls : List StoreCall) :
    s.answers calls =
      calls.mapIdx fun i call => call.answerAfter (before ++ calls.take i) := by
  induction calls generalizing s before with
  | nil => rfl
  | cons call rest ih =>
    obtain ⟨hanswer, hvalue⟩ := call_eq h call
    rw [answers, hanswer, ih hvalue, List.mapIdx_cons]
    simp

/-- **The store in memory answers what was persisted last since it was deleted last.** -/
theorem answers_eq (calls : List StoreCall) : ({} : MemoryStore).answers calls =
    calls.mapIdx fun i call => call.answerAfter (calls.take i) := by
  have hnew : ({} : MemoryStore).value = StoreCall.lastPersisted [] := rfl
  exact answers_after hnew calls

end MemoryStore

/-! ## One call of the store in a file -/

namespace FileStore

open FileSystem

variable {s : FileStore} {fs opened now : FileSystem} {target temporary : Place}
  {store : MemoryStore}

/-- A call answers what the store in memory answers, and both hold the same afterwards. -/
lemma call_eq (ready : s.Ready fs opened target temporary) (between : Between fs opened now)
    (holds : Holds opened now target store.value) (call : StoreCall) :
    ∃ after, s.call now call = (.ok (store.call call).1, after) ∧
      Touches opened [target, temporary] now after ∧
      Holds opened after target (store.call call).2.value := by
  cases call with
  | load default =>
    refine ⟨now, ?_, .refl opened _ now, holds⟩
    rw [FileStore.call, holds.load between ready.stands]
    rfl
  | persist time =>
    obtain ⟨after, hrun, htouches, hholds⟩ :=
      (ready.stage between time).run between ready.stands holds
    refine ⟨after, ?_, htouches, hholds⟩
    rw [FileStore.call, FileStore.persist, hrun]
    rfl
  | delete =>
    obtain ⟨after, hdelete, htouches, hholds⟩ := holds.delete between ready.stands
    refine ⟨after, ?_, htouches, hholds⟩
    rw [FileStore.call, hdelete]
    rfl

lemma answers_of_holds (ready : s.Ready fs opened target temporary)
    (between : Between fs opened now) (holds : Holds opened now target store.value)
    (calls : List StoreCall) : s.answers now calls = (store.answers calls).map .ok := by
  induction calls generalizing now store with
  | nil => rfl
  | cons call rest ih =>
    obtain ⟨after, hcall, htouches, hholds⟩ := call_eq ready between holds call
    rw [answers, hcall, ih (between.touches htouches ready.stands.own_free).1 hholds]
    rfl

/-- On a fresh path the store in a file answers what a new store in memory answers. -/
lemma Fresh.answers_eq (fresh : s.Fresh fs) (calls : List StoreCall) :
    s.answers fs calls = (({} : MemoryStore).answers calls).map .ok := by
  obtain ⟨opened, target, temporary, -, ready⟩ := fresh.ready
  exact answers_of_holds ready ready.makes.between ready.holds calls

end FileStore

end PartitionKeys

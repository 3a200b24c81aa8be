/-
# The first watermark decides

What a store answers becomes the watermark as it is, and no call mends it: a watermark that is
no number is never below a time and stays for ever, with a floor that is no number either,
while a number can only be followed by larger ones.  So all that the watermark is to be, a
number that is not negative, depends on what the store had.
-/
import PartitionKeys.Proofs.Partition.LargestTime

namespace PartitionKeys

lemma Binary64.isNaN_sub_of_isNaN {x : Binary64} (h : x.isNaN = true) (y : Binary64) :
    (x - y).isNaN = true := by
  change (sub x y).isNaN = true
  simp only [sub, h, Bool.true_or, if_true]
  rfl

/-- The largest of some times is not below a bound exactly if one of them is not. -/
lemma IsLargest.le_iff {largest bound : Binary64} {times : List Binary64}
    (h : IsLargest largest times) : bound ≤ largest ↔ ∃ time ∈ times, bound ≤ time := by
  constructor
  · intro hle
    exact ⟨largest, h.mem, hle⟩
  · rintro ⟨time, hmem, hle⟩
    exact Binary64.le_trans hle (h.le time hmem hle.2.1)

namespace Watermark

variable {w : Watermark}

/-- A watermark that is no number is stuck. -/
lemma observe_of_isNaN (h : w.time.isNaN = true) (time : Binary64) : w.observe time = w := by
  refine if_neg fun hnews => ?_
  have hnumber := hnews.1
  rw [h] at hnumber
  cases hnumber

lemma observeAll_of_isNaN (h : w.time.isNaN = true) (times : List Binary64) :
    w.observeAll times = w := by
  induction times with
  | nil => rfl
  | cons time rest ih => rw [observeAll_cons, observe_of_isNaN h, ih]

end Watermark

namespace Partition

variable {p : Partition}

lemma run_of_isNaN (opened : p.gate = {}) (h : p.watermark.time.isNaN = true)
    (calls : List Call) : (p.run calls).watermark = p.watermark := by
  rw [run_watermark opened, watermarkAfter, Watermark.observeAll_of_isNaN h, ite_self]

/-- Whether the watermark is a number is settled from the start. -/
lemma run_isNaN (opened : p.gate = {}) (calls : List Call) :
    (p.run calls).watermark.time.isNaN = p.watermark.time.isNaN := by
  cases h : p.watermark.time.isNaN with
  | true => rw [run_of_isNaN opened h, h]
  | false => exact (run_le h calls).2.1

/-- The floor under a finite retention is a number exactly if the watermark is one. -/
lemma isNaN_floor (ttl : p.settings.ttl.isFinite = true) :
    p.floor.isNaN = p.watermark.time.isNaN := by
  unfold floor Watermark.floor
  cases h : p.watermark.time.isNaN with
  | true => exact Binary64.isNaN_sub_of_isNaN h _
  | false => exact Binary64.isNaN_sub h ttl

/-- The first watermark is what the store has, if keys expire and it can be loaded; otherwise it
is unset, which is not negative. -/
lemma Built.zero_le_iff {settings : Settings} {choice : StoreChoice}
    (h : Built settings choice p) :
    .zero ≤ p.watermark.time ↔
      (p.settings.ttlEnabled = true → ∀ time,
        (choice.store p.settings).load Watermark.unset.time = .ok time → .zero ≤ time) := by
  have hunset : Binary64.zero ≤ Watermark.unset.time := by decide
  cases lasting : p.settings.ttlEnabled with
  | false => simp [h.watermark_unset lasting, hunset]
  | true =>
    rw [h.watermark, firstWatermark, if_pos lasting]
    cases (choice.store p.settings).load Watermark.unset.time with
    | error e => simp [hunset]
    | ok time => simp

/-- A time above all that the watermark has seen becomes the watermark, if that is a number. -/
lemma call_raises (opened : p.gate = {}) (ttlEnabled : p.settings.ttlEnabled = true)
    {call : Call} {time : Binary64} (brings : p.settings.timeOf call = some time)
    (number : time.isNaN = false) (above : ¬time ≤ p.watermark.time) :
    (p.call call).watermark = ⟨time⟩ ↔ p.watermark.time.isNaN = false := by
  have hstop : call.isStop = false := by
    cases call <;> first | rfl | cases brings
  rw [call_watermark opened hstop, watermarkAfter_of_ttlEnabled ttlEnabled, brings]
  change p.watermark.observe time = ⟨time⟩ ↔ _
  cases h : p.watermark.time.isNaN with
  | true =>
    rw [Watermark.observe_of_isNaN h]
    refine iff_of_false (fun heq => ?_) Bool.noConfusion
    rw [heq, number] at h
    cases h
  | false =>
    have hnews := (Binary64.lt_or_le h number).resolve_right above
    exact iff_of_true (if_pos hnews) rfl

/-- **A watermark that is a number and not negative.**  After every run of calls the watermark
is a number and not negative exactly if the partition has no retention, or its store had such a
number or could not be loaded.  With retention,
* the watermark is a number and not negative after some calls exactly if the first one was a
  number and either this one or a time that they have brought is not negative;
* under a finite retention the floor is a number exactly if the first watermark was one;
* a call that is let in and brings a number above all earlier times makes it the watermark
  exactly if the first watermark was a number. -/
theorem watermark_is_nonnegative_iff {settings : Settings} {index : KeyIndex}
    {choice : StoreChoice} {metrics : Metrics}
    (built : build settings index choice metrics = .ok p) :
    ((∀ calls, .zero ≤ (p.run calls).watermark.time) ↔
      (p.settings.ttlEnabled = true → ∀ time,
        (choice.store p.settings).load Watermark.unset.time = .ok time → .zero ≤ time)) ∧
    (p.settings.ttlEnabled = true → ∀ calls,
      (.zero ≤ (p.run calls).watermark.time ↔ p.watermark.time.isNaN = false ∧
        ∃ time ∈ p.watermark.time :: p.settings.timesOf calls, .zero ≤ time) ∧
      (p.settings.ttl.isFinite = true → (p.run calls).floor.isNaN = p.watermark.time.isNaN) ∧
      ∀ call time, .stop ∉ calls → p.settings.timeOf call = some time → time.isNaN = false →
        (∀ earlier ∈ p.watermark.time :: p.settings.timesOf calls, ¬time ≤ earlier) →
        ((p.run (calls ++ [call])).watermark = ⟨time⟩ ↔ p.watermark.time.isNaN = false)) := by
  have hbuilt := built_of_build built
  have opened := hbuilt.gate
  refine ⟨?_, fun ttlEnabled calls => ⟨?_, fun ttl => ?_, ?_⟩⟩
  · rw [← hbuilt.zero_le_iff]
    constructor
    · intro hall
      exact hall []
    · intro hfirst calls
      exact Binary64.le_trans hfirst (run_le hfirst.2.1 calls)
  · constructor
    · intro hle
      have hnumber : p.watermark.time.isNaN = false := by
        rw [← run_isNaN opened calls]
        exact hle.2.1
      exact ⟨hnumber, (run_largest opened ttlEnabled hnumber calls).le_iff.1 hle⟩
    · rintro ⟨hnumber, hsome⟩
      exact (run_largest opened ttlEnabled hnumber calls).le_iff.2 hsome
  · rw [isNaN_floor (by rwa [run_settings]), run_isNaN opened]
  · intro call time hnone brings number above
    have hgate := (run_unstopped opened hnone).1
    rw [run_concat, ← run_isNaN opened calls]
    refine call_raises hgate ?_ ?_ number ?_
    · rw [run_settings]
      exact ttlEnabled
    · rw [run_settings]
      exact brings
    · intro hle
      have hnumber : p.watermark.time.isNaN = false := by
        rw [← run_isNaN opened calls]
        exact hle.2.1
      exact above _ (run_largest opened ttlEnabled hnumber calls).mem hle

end Partition

namespace Sample

/-- A store whose file holds some bytes. -/
def filed (content : Bytes) : WatermarkStore where
  medium := .file ⟨["", "watermark"]⟩ ⟨[(["watermark"], .file content)]⟩

end Sample

/-- The file holds the number 20. -/
theorem watermark_is_nonnegative_twenty :
    ∃ p, Partition.build Sample.expiring { backend := .unordered {} }
        (.given (Sample.filed (Binary64.ofInt 20).toBytes)) .off = .ok p ∧
      p.watermark = ⟨.ofInt 20⟩ ∧ ∀ calls, .zero ≤ (p.run calls).watermark.time := by
  have hstored : ∀ time, (Sample.filed (Binary64.ofInt 20).toBytes).load Watermark.unset.time =
      .ok time → .zero ≤ time := by
    intro time hload
    have htwenty : (Sample.filed (Binary64.ofInt 20).toBytes).load Watermark.unset.time =
        .ok (.ofInt 20) := by decide +kernel
    rw [← Except.ok.inj (htwenty.symm.trans hload)]
    decide +kernel
  have built : Partition.build Sample.expiring { backend := .unordered {} }
      (.given (Sample.filed (Binary64.ofInt 20).toBytes)) .off = .ok _ := rfl
  refine ⟨_, built, by decide +kernel, ?_⟩
  exact (Partition.watermark_is_nonnegative_iff built).1.2 fun _ => hstored

/-- Eight bytes that spell no number: the watermark is none, whatever is called. -/
theorem watermark_can_be_no_number :
    ∃ p, Partition.build Sample.expiring { backend := .unordered {} }
        (.given (Sample.filed Binary64.nan.toBytes)) .off = .ok p ∧
      p.settings.ttl.isFinite = true ∧
      ∀ calls, (p.run calls).watermark = ⟨.nan⟩ ∧ ¬.zero ≤ (p.run calls).watermark.time ∧
        (p.run calls).floor.isNaN = true := by
  obtain ⟨p, built, hnan, ttl⟩ : ∃ p, Partition.build Sample.expiring { backend := .unordered {} }
      (.given (Sample.filed Binary64.nan.toBytes)) .off = .ok p ∧ p.watermark = ⟨.nan⟩ ∧
      p.settings.ttl.isFinite = true := ⟨_, rfl, by decide +kernel, by decide +kernel⟩
  refine ⟨p, built, ttl, fun calls => ?_⟩
  have hrun : (p.run calls).watermark = ⟨.nan⟩ := by
    rw [Partition.run_of_isNaN (Partition.built_of_build built).gate (by rw [hnan]; rfl), hnan]
  refine ⟨hrun, ?_, ?_⟩
  · rw [hrun]
    decide
  · rw [Partition.isNaN_floor (by rwa [Partition.run_settings]), hrun]
    rfl

end PartitionKeys

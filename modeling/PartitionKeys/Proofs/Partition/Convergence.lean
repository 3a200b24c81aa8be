/-
# Convergence on a single comparison column

Records whose versions have one column with values of one type are offered to an upsert table
without retention, singly or as the records of sealed segments.  No offer fails, and the entry
of a key is that of the last record offered for it among those with the largest value:
`LastMaximal`.  The two rules decide such versions alike and neither changes them, so it does
not matter which of them a record is offered by.  If the values for a key are pairwise
different, the order of the offers does not matter either.
-/
import PartitionKeys.Proofs.Partition.Lifecycle
import PartitionKeys.Proofs.Version.Single

namespace PartitionKeys

/-- A record that is offered, with the segment that it is in. -/
structure Arrival where
  segment : SegmentId
  record : Record
deriving DecidableEq

namespace Arrival

/-- The key under which the record is offered. -/
def key (s : Settings) (a : Arrival) : IndexKey := s.hash.apply a.record.key

/-- The entry that is offered for the record. -/
def entry (s : Settings) (a : Arrival) : Entry :=
  .of ⟨a.segment, a.record.doc⟩ a.record.version s.timeColumn

/-- The version of the record has this one column, with a value of this type. -/
def IsSingle (column : String) (type : ValueType) (a : Arrival) : Prop :=
  ∃ value, a.record.version = .single column value ∧ value.type = type

end Arrival

/-- The terms on which a table offers records, up to the rule: an upsert table without retention
that compares by one column, and no segment is being replaced. -/
structure Terms.Plain (s : Settings) (column : String) (t : Terms) : Prop where
  upsert : t.kind = .upsert
  columns : t.comparisonColumns = [column]
  timeColumn : t.timeColumn = s.timeColumn
  alone : t.replacing = none
  lasting : t.floor = none

/-- On such terms a record is turned away if its value is below the one that is held, and
otherwise its own entry is written. -/
lemma Terms.Plain.resolve {s : Settings} {column : String} {t : Terms} (h : t.Plain s column)
    {a b : Arrival} {v w : Value} (ha : a.record.version = .single column v)
    (hb : b.record.version = .single column w) (htype : v.type = w.type) :
    PartitionKeys.resolve (some (b.entry s)) (a.entry s) t =
      .ok (if v < w then .reject else .supersede (a.entry s)) := by
  have hlive : t.isStale (b.entry s) = false := by simp [isStale, h.lasting]
  have hfree : t.ownedByReplaced (b.entry s) = false := by simp [ownedByReplaced, h.alone]
  have hdecide : t.rule.decide (a.entry s).version (b.entry s).version [column] =
      .ok (if v < w then .reject else .supersede (.single column v)) := by
    change t.rule.decide a.record.version b.record.version [column] = _
    rw [ha, hb]
    exact t.rule.decide_single htype
  simp only [PartitionKeys.resolve, resolvePresent, hlive, hfree, h.upsert, h.columns, hdecide,
    Bool.false_eq_true, if_false]
  by_cases hlt : v < w
  · rw [if_pos hlt, if_pos hlt]
    rfl
  · rw [if_neg hlt, if_neg hlt]
    change Except.ok (Resolution.supersede
      (.of (a.entry s).location (.single column v) t.timeColumn)) = _
    rw [h.timeColumn, ← ha]
    rfl

/-! ## The last of the largest -/

/-- The entry of a key is that of the last record offered for it among those with the largest
value in a column; there is none if no record of the key was offered. -/
inductive LastMaximal (s : Settings) (column : String) (arrivals : List Arrival)
    (key : IndexKey) : Option Entry → Prop
  | absent (free : ∀ a ∈ arrivals, a.key s ≠ key) : LastMaximal s column arrivals key none
  | present (before : List Arrival) (a : Arrival) (after : List Arrival) (value : Value)
    (split : arrivals = before ++ a :: after) (hkey : a.key s = key)
    (holds : a.record.version.value? column = some value)
    (earlier : ∀ b ∈ before, b.key s = key → ∀ v, b.record.version.value? column = some v →
      v ≤ value)
    (later : ∀ b ∈ after, b.key s = key → ∀ v, b.record.version.value? column = some v →
      v < value) : LastMaximal s column arrivals key (some (a.entry s))

namespace LastMaximal

variable {s : Settings} {column : String} {type : ValueType} {arrivals : List Arrival}
variable {key : IndexKey} {a : Arrival} {present : Option Entry}

/-- The record that is held is not below any other of the key. -/
lemma le_of_split {before after : List Arrival} {value : Value}
    (split : arrivals = before ++ a :: after)
    (holds : a.record.version.value? column = some value)
    (earlier : ∀ b ∈ before, b.key s = key → ∀ v, b.record.version.value? column = some v →
      v ≤ value)
    (later : ∀ b ∈ after, b.key s = key → ∀ v, b.record.version.value? column = some v →
      v < value) :
    ∀ b ∈ arrivals, b.key s = key → ∀ v, b.record.version.value? column = some v →
      v ≤ value := by
  rw [split, List.forall_mem_append, List.forall_mem_cons]
  refine ⟨earlier, fun _ v hv => ?_, fun b hmem hb v hv => (later b hmem hb v hv).le⟩
  rw [holds] at hv
  cases hv
  exact le_refl _

/-- A record of another key does not matter. -/
lemma concat_of_ne (h : LastMaximal s column arrivals key present) (hkey : a.key s ≠ key) :
    LastMaximal s column (arrivals ++ [a]) key present := by
  cases h with
  | absent hfree =>
    exact .absent (List.forall_mem_append.2 ⟨hfree, List.forall_mem_singleton.2 hkey⟩)
  | present before b after value split hb holds earlier later =>
    exact .present before b (after ++ [a]) value (by simp [split]) hb holds earlier
      (List.forall_mem_append.2 ⟨later, List.forall_mem_singleton.2 fun hc => absurd hc hkey⟩)

/-- An offer for the key is resolved, and leaves it to the last of the largest again. -/
lemma offer (h : LastMaximal s column arrivals key present)
    (typed : ∀ b ∈ arrivals, b.IsSingle column type) (ha : a.IsSingle column type)
    (hkey : a.key s = key) {t : Terms} (plain : t.Plain s column) :
    ∃ r, resolve present (a.entry s) t = .ok r ∧
      LastMaximal s column (arrivals ++ [a]) key (r.entry?.or present) := by
  obtain ⟨v, hv, hvtype⟩ := ha
  have hvalue : a.record.version.value? column = some v := by rw [hv, Version.value?_single]
  cases h with
  | absent hfree =>
    refine ⟨.insert (a.entry s), rfl, .present arrivals a [] v rfl hkey hvalue ?_ ?_⟩
    · exact fun b hmem hb => absurd hb (hfree b hmem)
    · exact fun b hmem => absurd hmem List.not_mem_nil
  | present before b after w split hb holds earlier later =>
    obtain ⟨w', hw, hwtype⟩ := typed b (by simp [split])
    obtain rfl : w' = w := by simpa [hw] using holds
    refine ⟨_, plain.resolve hv hw (hvtype.trans hwtype.symm), ?_⟩
    by_cases hlt : v < w'
    · rw [if_pos hlt]
      refine .present before b (after ++ [a]) w' (by simp [split]) hb holds earlier
        (List.forall_mem_append.2 ⟨later, List.forall_mem_singleton.2 fun _ u hu => ?_⟩)
      rw [hvalue] at hu
      cases hu
      exact hlt
    · have hle : w' ≤ v := (Value.lt_or_ge_of_type_eq (hvtype.trans hwtype.symm)).resolve_left hlt
      rw [if_neg hlt]
      refine .present arrivals a [] v rfl hkey hvalue ?_ fun c hmem => absurd hmem List.not_mem_nil
      exact fun c hmem hc u hu => (le_of_split split holds earlier later c hmem hc u hu).trans hle

/-- No record of the key is above the one that is held. -/
lemma largest (h : LastMaximal s column arrivals key present) :
    (present = none ∧ ∀ b ∈ arrivals, b.key s ≠ key) ∨
      ∃ a ∈ arrivals, a.key s = key ∧ present = some (a.entry s) ∧
        ∃ w, a.record.version.value? column = some w ∧ ∀ b ∈ arrivals, b.key s = key →
          ∀ v, b.record.version.value? column = some v → v ≤ w := by
  cases h with
  | absent hfree => exact .inl ⟨rfl, hfree⟩
  | present before a after w split ha holds earlier later =>
    exact .inr ⟨a, by simp [split], ha, rfl, w, holds, le_of_split split holds earlier later⟩

/-- Where different records of a key have different values, the last of the largest does not
depend on the order of the records. -/
theorem unique {arrivals' : List Arrival} {present' : Option Entry}
    (h : LastMaximal s column arrivals key present)
    (h' : LastMaximal s column arrivals' key present')
    (same : ∀ a, a ∈ arrivals ↔ a ∈ arrivals')
    (apart : ∀ a ∈ arrivals, ∀ b ∈ arrivals, a.key s = b.key s →
      a.record.version.value? column = b.record.version.value? column → a = b) :
    present' = present := by
  rcases h.largest with ⟨rfl, hfree⟩ | ⟨a, hmem, ha, rfl, v, hv, habove⟩ <;>
    rcases h'.largest with ⟨rfl, hfree'⟩ | ⟨b, hmem', hb, rfl, w, hw, habove'⟩
  · rfl
  · exact absurd hb (hfree b ((same b).2 hmem'))
  · exact absurd ha (hfree' a ((same a).1 hmem))
  · -- each of the two is at least as large as the other
    have hvw : v = w := le_antisymm (habove' a ((same a).1 hmem) ha v hv)
      (habove b ((same b).2 hmem') hb w hw)
    obtain rfl := apart a hmem b ((same b).2 hmem') (ha.trans hb.symm) (by rw [hv, hw, hvw])
    rfl

end LastMaximal

/-! ## Offers -/

/-- A record is offered under its key, on the terms of a table that compares by one column. -/
structure Offering.Plain (s : Settings) (column : String) (o : Offering) : Prop where
  hash : o.hash = s.hash
  terms : o.terms.Plain s column

/-- An index that answers and that leaves each key to the last of the largest of some records. -/
structure Converges (s : Settings) (column : String) (type : ValueType)
    (arrivals : List Arrival) (i : KeyIndex) : Prop where
  works : i.Works
  typed : ∀ a ∈ arrivals, a.IsSingle column type
  held : ∀ key, LastMaximal s column arrivals key (i.get? key)

namespace Converges

variable {s : Settings} {column : String} {type : ValueType} {arrivals : List Arrival}
variable {o : Offering}

/-- An index that is empty converges. -/
lemma of_empty {i : KeyIndex} (works : i.Works) (empty : i.keys = []) :
    Converges s column type [] i where
  works
  typed a hmem := absurd hmem List.not_mem_nil
  held key := by
    rw [KeyIndex.get?_of_keys_eq_nil empty key]
    exact .absent fun a hmem => absurd hmem List.not_mem_nil

/-- An offer is accepted and converges. -/
theorem offer (pass : Pass) (h : Converges s column type arrivals pass.index)
    (plain : o.Plain s column) {record : Record}
    (single : Arrival.IsSingle column type ⟨o.segment, record⟩) :
    ∃ next, Pass.run o [record] pass = (none, next) ∧
      Converges s column type (arrivals ++ [⟨o.segment, record⟩]) next.index := by
  obtain ⟨a, ha⟩ : ∃ a : Arrival, a = ⟨o.segment, record⟩ := ⟨_, rfl⟩
  have hkey : o.key record = a.key s := by
    rw [ha, Offering.key, plain.hash]
    rfl
  have hentry : (o.entry record).2 = a.entry s := by
    rw [ha]
    unfold Offering.entry Arrival.entry
    rw [plain.terms.timeColumn]
    rfl
  rw [← ha] at single ⊢
  obtain ⟨r, hr, hheld⟩ := (h.held (a.key s)).offer h.typed single rfl plain.terms
  rw [← hkey, ← hentry] at hr
  obtain ⟨next, hrun, htook, hworks⟩ := h.works.took hr
  refine ⟨next, hrun, hworks, ?_, fun key => ?_⟩
  · exact List.forall_mem_append.2 ⟨h.typed, List.forall_mem_singleton.2 single⟩
  by_cases hother : a.key s = key
  · subst hother
    cases htook with
    | rejected _ resolution entries =>
      rw [hr] at resolution
      cases resolution
      rw [entries]
      exact hheld
    | written _ r' entry resolution written entries =>
      rw [hr] at resolution
      cases resolution
      rw [written, Option.some_or] at hheld
      rw [entries, hkey, Function.update_self]
      exact hheld
  · have hsame : next.index.get? key = pass.index.get? key := by
      cases htook with
      | rejected _ _ entries => rw [entries]
      | written _ _ _ _ _ entries =>
        rw [entries, hkey, Function.update_of_ne (Ne.symm hother)]
    rw [hsame]
    exact (h.held key).concat_of_ne hother

/-- A pass is accepted and converges. -/
lemma passRun {records : List Record} (pass : Pass)
    (h : Converges s column type arrivals pass.index) (plain : o.Plain s column)
    (single : ∀ record ∈ records, Arrival.IsSingle column type ⟨o.segment, record⟩) :
    ∃ next, Pass.run o records pass = (none, next) ∧
      Converges s column type (arrivals ++ records.map (Arrival.mk o.segment)) next.index := by
  induction records generalizing pass arrivals with
  | nil => exact ⟨pass, rfl, by rwa [List.map_nil, List.append_nil]⟩
  | cons record rest ih =>
    obtain ⟨next, hone, hnext⟩ := h.offer pass plain (single record List.mem_cons_self)
    obtain ⟨last, hrest, hlast⟩ :=
      ih next hnext fun other hmem => single other (List.mem_cons_of_mem _ hmem)
    refine ⟨last, ?_, ?_⟩
    · rw [Pass.run_cons, hone]
      exact hrest
    · rwa [List.map_cons, List.append_cons]

end Converges

/-! ## Calls -/

/-- The records that a call brings in: those of a sealed segment that is added and can be read,
or a single record.  A segment without documents brings none. -/
inductive Call.Brings (s : Settings) : Call → List Arrival → Prop
  | sealed (segment : Segment) (records : List Record) (hkind : segment.kind = .immutable)
    (read : segment.read ⟨s.keyColumns, s.comparisonColumns⟩ = .ok records) :
    Brings s (.change (.add segment)) (records.map (Arrival.mk segment.id))
  | empty (segment : Segment) (hkind : segment.kind = .empty) :
    Brings s (.change (.add segment)) []
  | single (segment : SegmentId) (record : Record) :
    Brings s (.ingest segment record) [⟨segment, record⟩]

namespace Partition

/-- How a single record is offered. -/
def singleOffering (p : Partition) (segment : SegmentId) : Offering :=
  ⟨p.settings.hash, p.terms .perColumn none, segment⟩

/-- A single record is taken in as by a pass of its own. -/
lemma applyRecord_eq (p : Partition) (segment : SegmentId) (record : Record) :
    (p.applyRecord p.watermark segment record).2 =
        (Pass.run (p.singleOffering segment) [record] { index := p.index }).2.index ∧
      ((Pass.run (p.singleOffering segment) [record] { index := p.index }).1 = none →
        ∃ update, (p.applyRecord p.watermark segment record).1 = .ok update) := by
  have hcall : p.applyRecord p.watermark segment record =
      p.index.apply ((p.singleOffering segment).key record)
        ((p.singleOffering segment).entry record).2 (p.singleOffering segment).terms := rfl
  rw [hcall]
  simp only [Pass.run, Offering.entry_fst]
  rcases p.index.apply ((p.singleOffering segment).key record)
    ((p.singleOffering segment).entry record).2 (p.singleOffering segment).terms
    with ⟨e | update, index⟩
  · exact ⟨rfl, fun h => absurd h (Option.some_ne_none _)⟩
  · exact ⟨by rw [Pass.note_index], fun _ => ⟨update, rfl⟩⟩

end Partition

/-- An upsert table without retention that compares by one column. -/
structure Settings.ComparesBy (s : Settings) (column : String) : Prop where
  upsert : s.kind = .upsert
  lasting : s.ttlEnabled = false
  columns : s.comparisonColumns = [column]

namespace Partition

variable {p : Partition} {column : String} {type : ValueType} {arrivals : List Arrival}

lemma plain_terms (table : p.settings.ComparesBy column) (rule : ComparisonRule) :
    (p.terms rule none).Plain p.settings column :=
  ⟨table.upsert, table.columns, rfl, rfl, floor_terms table.lasting⟩

/-- A partition reads what its columns ask for. -/
lemma readAll_of_read {segment : Segment} {records : List Record}
    (read : segment.read ⟨p.settings.keyColumns, p.settings.comparisonColumns⟩ = .ok records) :
    p.readAll segment = .ok records := by
  change Except.mapError _ (segment.read ⟨p.settings.keyColumns, p.settings.comparisonColumns⟩) = _
  rw [read]
  rfl

/-- A call that brings records in does not fail. -/
def Succeeds (p : Partition) : Call → Prop
  | .change operation => ∃ outcome, (p.change operation).1 = .ok outcome
  | .ingest segment record => ∃ outcome, (p.ingest segment record).1 = .ok (.indexed outcome)
  | _ => True

/-- The records of a sealed segment are all offered, and the addition is applied. -/
lemma add_converges (table : p.settings.ComparesBy column) (opened : p.gate = {})
    (h : Converges p.settings column type arrivals p.index) {segment : Segment}
    {records : List Record} (hkind : segment.kind = .immutable)
    (read : p.readAll segment = .ok records)
    (single : ∀ record ∈ records, Arrival.IsSingle column type ⟨segment.id, record⟩) :
    p.Succeeds (.change (.add segment)) ∧
      Converges p.settings column type (arrivals ++ records.map (Arrival.mk segment.id))
        (p.call (.change (.add segment))).index := by
  have hstart := start_lasting table.lasting (enter?_of_open opened) (.add segment) hkind
  obtain ⟨pass, hrun, hpass⟩ := Converges.passRun (o := p.offering (.add segment) none)
    { index := p.index } h ⟨rfl, plain_terms table .sealed⟩ single
  obtain ⟨hresult, hindex⟩ := perform_add (p := { p with gate := ⟨false, false, 2⟩ }) read hrun
  have hchange := change_of_start_none hstart
  refine ⟨⟨.applied pass.counts, ?_⟩, ?_⟩
  · rw [hchange]
    dsimp only
    rw [hresult]
    rfl
  · change Converges p.settings column type _ (p.change (.add segment)).2.index
    rw [hchange]
    change Converges p.settings column type _ (perform _ (.add segment)).2.index
    rw [hindex]
    exact hpass

/-- A single record is offered and answered. -/
lemma ingest_converges (table : p.settings.ComparesBy column) (opened : p.gate = {})
    (h : Converges p.settings column type arrivals p.index) {segment : SegmentId}
    {record : Record} (single : Arrival.IsSingle column type ⟨segment, record⟩) :
    p.Succeeds (.ingest segment record) ∧
      Converges p.settings column type (arrivals ++ [⟨segment, record⟩])
        (p.call (.ingest segment record)).index := by
  obtain ⟨pass, hrun, hpass⟩ := Converges.offer (o := p.singleOffering segment)
    { index := p.index } h ⟨rfl, plain_terms table .perColumn⟩ single
  obtain ⟨hindex, hanswer⟩ := p.applyRecord_eq segment record
  rw [hrun] at hindex hanswer
  obtain ⟨update, hupdate⟩ := hanswer rfl
  obtain ⟨hresult, hlast⟩ := ingest_lasting table.lasting (enter?_of_open opened) segment record
  rw [hupdate] at hresult
  refine ⟨⟨update.outcome, hresult⟩, ?_⟩
  change Converges p.settings column type _ (p.ingest segment record).2.index
  rw [hlast, hindex]
  exact hpass

/-- A call that brings records in succeeds and converges. -/
theorem call_converges (table : p.settings.ComparesBy column) (opened : p.gate = {})
    (h : Converges p.settings column type arrivals p.index) {call : Call} {batch : List Arrival}
    (brings : call.Brings p.settings batch) (single : ∀ a ∈ batch, a.IsSingle column type) :
    p.Succeeds call ∧
      Converges p.settings column type (arrivals ++ batch) (p.call call).index := by
  cases brings with
  | sealed segment records hkind read =>
    exact add_converges table opened h hkind (readAll_of_read read) fun record hmem =>
      single _ (List.mem_map_of_mem hmem)
  | empty segment hkind =>
    have hchange := change_of_start_some (p.start_of_empty (.add segment) hkind)
    refine ⟨⟨_, congrArg Prod.fst hchange⟩, ?_⟩
    rw [List.append_nil, Partition.call, hchange]
    exact h
  | single segment record => exact ingest_converges table opened h (single _ List.mem_cons_self)

/-- Every run of such calls converges, and none of them fails. -/
theorem run_converges (table : p.settings.ComparesBy column) (opened : p.gate = {})
    (h : Converges p.settings column type arrivals p.index) {calls : List Call}
    {batches : List (List Arrival)} (brings : List.Forall₂ (Call.Brings p.settings) calls batches)
    (single : ∀ batch ∈ batches, ∀ a ∈ batch, a.IsSingle column type) :
    (∀ before call after, calls = before ++ call :: after → (p.run before).Succeeds call) ∧
      Converges p.settings column type (arrivals ++ batches.flatten) (p.run calls).index := by
  generalize hs : p.settings = s at table h brings ⊢
  induction brings generalizing p arrivals with
  | nil =>
    refine ⟨fun before call after heq => ?_, ?_⟩
    · exact absurd heq.symm (List.append_ne_nil_of_right_ne_nil _ (List.cons_ne_nil _ _))
    · rwa [List.flatten_nil, List.append_nil]
  | @cons call batch rest more hcall _ ih =>
    obtain ⟨hsucceeds, hnext⟩ := call_converges (p := p) (hs ▸ table) opened (hs ▸ h) (hs ▸ hcall)
      (single batch List.mem_cons_self)
    rw [hs] at hnext
    have hgate : (p.call call).gate = {} := by
      rw [p.call_gate (by rintro rfl; cases hcall) (by rintro rfl; cases hcall), opened]
    obtain ⟨hrest, hlast⟩ := ih hgate (fun other hmem => single other (List.mem_cons_of_mem _ hmem))
      ((p.call_settings call).trans hs) hnext
    refine ⟨fun before other after heq => ?_, ?_⟩
    · cases before with
      | nil =>
        obtain ⟨rfl, -⟩ := List.cons.inj heq
        exact hsucceeds
      | cons first before =>
        obtain ⟨rfl, htail⟩ := List.cons.inj heq
        exact hrest before other after htail
    · rw [List.flatten_cons, ← List.append_assoc]
      exact hlast

end Partition

end PartitionKeys

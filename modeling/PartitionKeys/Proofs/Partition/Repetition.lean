/-
# Adding a segment again

By the sealed rule two versions may beat each other, so a key can change hands many times in
the pass of a segment, and a second pass starts from where the first one ended.  Nevertheless
it ends there too.  If the entry of a key beats all its records, they are turned away each
time.  If not, the pass ends with the key's *champion*, the first of its records that all later
ones lose to, and this does not depend on what was there before: a record that loses passes
its own losers on to whatever it has lost to.
-/
import PartitionKeys.Proofs.Partition.Inheritance
import PartitionKeys.Proofs.Partition.Replacement
import PartitionKeys.Proofs.Partition.Staleness
import PartitionKeys.Proofs.Version.Dominance

namespace PartitionKeys

namespace Offering

/-- Records are offered on the terms of an addition to an upsert table without retention. -/
structure Adds (o : Offering) : Prop where
  upsert : o.terms.kind = .upsert
  rule : o.terms.rule = .sealed
  alone : o.terms.replacing = none
  lasting : o.terms.floor = none

/-- The record has a value of the right type in each comparison column. -/
def IsFull (o : Offering) (types : String → ValueType) (record : Record) : Prop :=
  record.version.IsFull o.terms.comparisonColumns types

/-- The first record of a key that all later records of the key lose to. -/
def champion? (o : Offering) (key : IndexKey) : List Record → Option Record
  | [] => none
  | record :: rest =>
    if o.key record = key ∧ ∀ other ∈ rest, o.key other = key →
        other.version.Loses o.terms.comparisonColumns record.version then some record
    else o.champion? key rest

variable {o : Offering} {record : Record} {records rest : List Record} {key : IndexKey}
variable {types : String → ValueType}

lemma mem_of_champion? {champion : Record} (h : o.champion? key records = some champion) :
    champion ∈ records := by
  induction records with
  | nil => cases h
  | cons record rest ih =>
    unfold champion? at h
    split at h
    · cases h
      exact List.mem_cons_self
    · exact List.mem_cons_of_mem _ (ih h)

/-! ## A record and what is held -/

/-- What an offer meets on the terms of an addition. -/
lemma Adds.resolve_some (h : o.Adds) (held : Entry) (record : Record) :
    resolve (some held) (o.entry record).2 o.terms =
      match record.version.decideSealed held.version o.terms.comparisonColumns with
      | .error e => .error e
      | .ok .reject => .ok .reject
      | .ok (.supersede version) =>
        .ok (.supersede (.of (o.location record) version o.terms.timeColumn)) := by
  have hlive : o.terms.isStale held = false := by simp [Terms.isStale, h.lasting]
  have hfree : o.terms.ownedByReplaced held = false := by simp [Terms.ownedByReplaced, h.alone]
  simp only [resolve, resolvePresent, hlive, hfree, h.upsert, h.rule, ComparisonRule.decide,
    Bool.false_eq_true, if_false]
  change (record.version.decideSealed held.version o.terms.comparisonColumns >>= _) = _
  cases record.version.decideSealed held.version o.terms.comparisonColumns with
  | error e => rfl
  | ok decision => cases decision <;> rfl

/-- On these terms a record is turned away exactly if its version loses. -/
lemma Adds.reject_iff (h : o.Adds) {present : Option Entry} :
    resolve present (o.entry record).2 o.terms = .ok .reject ↔
      ∃ held, present = some held ∧
        record.version.Loses o.terms.comparisonColumns held.version := by
  cases present with
  | none => simp [resolve]
  | some held =>
    rw [h.resolve_some]
    simp only [Option.some_inj, exists_eq_left', ← Version.decideSealed_eq_reject_iff]
    cases record.version.decideSealed held.version o.terms.comparisonColumns with
    | error e => simp
    | ok decision => cases decision <;> simp

/-- A record that has a value in each column can be offered where nothing is held, and where such
a record is held. -/
lemma Adds.exists_resolve (h : o.Adds) (full : o.IsFull types record) {present : Option Entry}
    (hfull : ∀ held, present = some held →
      held.version.IsFull o.terms.comparisonColumns types) :
    ∃ r, resolve present (o.entry record).2 o.terms = .ok r := by
  cases present with
  | none => exact ⟨_, rfl⟩
  | some held =>
    rw [h.resolve_some]
    rcases Version.exists_decideSealed full (hfull held rfl) with hlose | hwin
    · rw [Version.decideSealed_eq_reject_iff.2 hlose]
      exact ⟨_, rfl⟩
    · rw [hwin]
      exact ⟨_, rfl⟩

/-- What a record writes on these terms is its own entry. -/
lemma Adds.eq_of_written (h : o.Adds) {present : Option Entry} {r : Resolution} {entry : Entry}
    (hresolve : resolve present (o.entry record).2 o.terms = .ok r) (hr : r.entry? = some entry) :
    entry = (o.entry record).2 :=
  eq_of_resolve_sealed h.rule hresolve hr

/-! ## What a pass makes of a key -/

/-- What an accepted pass on the terms of an addition has made of a key: either all its records
were turned away, and the entry is as before, or it is that of the key's champion. -/
inductive Crowned (o : Offering) (records : List Record) (before after : IndexKey → Option Entry)
    (key : IndexKey) : Prop
  | kept (away : o.TurnedAway records before key) (same : after key = before key)
  | won (champion : Record) (first : o.champion? key records = some champion)
    (notAway : ¬o.TurnedAway records before key) (held : after key = some (o.entry champion).2)

/-- The champion of a list is that of its rest, unless the rest of the key loses to the first
record. -/
lemma champion?_cons_of_not (h : ¬(o.key record = key ∧ ∀ other ∈ rest, o.key other = key →
      other.version.Loses o.terms.comparisonColumns record.version)) :
    o.champion? key (record :: rest) = o.champion? key rest := by
  rw [champion?, if_neg h]

/-- A record that is turned away does not matter. -/
lemma Crowned.cons_of_away (adds : o.Adds) (full : o.IsFull types record)
    {before middle after : IndexKey → Option Entry} (hsame : middle key = before key)
    (haway : o.key record = key →
      resolve (before key) (o.entry record).2 o.terms = .ok .reject)
    (h : Crowned o rest middle after key) : Crowned o (record :: rest) before after key := by
  have hrest : o.TurnedAway rest middle key → o.TurnedAway rest before key := by
    intro h other hmem hkey
    rw [← hsame]
    exact h other hmem hkey
  cases h with
  | kept away same => exact .kept (TurnedAway.cons haway (hrest away)) (same.trans hsame)
  | won champion first notAway held =>
    refine .won champion ?_ (fun h => notAway (h.of_cons hsame)) held
    rw [champion?_cons_of_not, first]
    rintro ⟨hkey, hlose⟩
    -- what loses to this record also loses to what has turned this record away
    obtain ⟨present, hpresent, hbeaten⟩ := adds.reject_iff.1 (haway hkey)
    refine notAway fun other hmem hother => ?_
    rw [hsame]
    exact adds.reject_iff.2 ⟨present, hpresent, (hlose other hmem hother).trans full hbeaten⟩

/-- A record that is written is the champion, unless a later one is. -/
lemma Crowned.cons_of_written (adds : o.Adds) {before middle after : IndexKey → Option Entry}
    (hkey : o.key record = key) (hmiddle : middle key = some (o.entry record).2)
    (hwritten : resolve (before key) (o.entry record).2 o.terms ≠ .ok .reject)
    (h : Crowned o rest middle after key) : Crowned o (record :: rest) before after key := by
  have hnot : ¬o.TurnedAway (record :: rest) before key :=
    fun haway => hwritten (haway record List.mem_cons_self hkey)
  have hrest : o.TurnedAway rest middle key ↔ ∀ other ∈ rest, o.key other = key →
      other.version.Loses o.terms.comparisonColumns record.version := by
    unfold TurnedAway
    rw [hmiddle]
    simp only [adds.reject_iff, Option.some_inj, exists_eq_left']
    rfl
  cases h with
  | kept away same =>
    refine .won record ?_ hnot (same.trans hmiddle)
    rw [champion?, if_pos ⟨hkey, hrest.1 away⟩]
  | won champion first notAway held =>
    refine .won champion ?_ hnot held
    rw [champion?_cons_of_not fun h => notAway (hrest.2 h.2), first]

end Offering

namespace Pass

open Offering

variable {o : Offering} {types : String → ValueType}

/-- An accepted pass leaves each key to its champion, unless the key held something better. -/
theorem run_crowned (adds : o.Adds) (records : List Record) (pass : Pass) (key : IndexKey)
    (full : ∀ record ∈ records, o.IsFull types record)
    (accepted : (run o records pass).1 = none) :
    o.Crowned records pass.index.get? (run o records pass).2.index.get? key := by
  refine run_induction o (motive := fun records pass result =>
    (∀ record ∈ records, o.IsFull types record) → result.1 = none →
    o.Crowned records pass.index.get? result.2.index.get? key) ?_ ?_ ?_ records pass full accepted
  · intro pass _ _
    exact .kept (fun record hmem => absurd hmem List.not_mem_nil) rfl
  · intro record rest pass e next _ _ haccepted
    cases haccepted
  · intro record rest pass next htook ih hfull haccepted
    have hrest := ih (fun other hmem => hfull other (List.mem_cons_of_mem _ hmem)) haccepted
    have hrecord := hfull record List.mem_cons_self
    cases htook with
    | rejected _ resolution entries =>
      refine hrest.cons_of_away adds hrecord (congrFun entries key) ?_
      rintro rfl
      exact resolution
    | written _ r entry resolution held entries =>
      by_cases hkey : o.key record = key
      · subst hkey
        refine hrest.cons_of_written adds rfl ?_ ?_
        · rw [entries, Function.update_self, adds.eq_of_written resolution held]
        · rw [resolution]
          intro hreject
          cases hreject
          cases held
      · -- this record has written another key
        refine hrest.cons_of_away adds hrecord ?_ fun h => absurd h hkey
        rw [entries, Function.update_of_ne (Ne.symm hkey)]

/-- A pass goes through if the entry of each key turns all records of the key away or can be
compared with them. -/
lemma run_accepted (adds : o.Adds) (records : List Record) (pass : Pass)
    (works : pass.index.Works) (full : ∀ record ∈ records, o.IsFull types record)
    (fits : ∀ key, o.TurnedAway records pass.index.get? key ∨
      ∀ held, pass.index.get? key = some held →
        held.version.IsFull o.terms.comparisonColumns types) :
    (run o records pass).1 = none := by
  induction records generalizing pass with
  | nil => rfl
  | cons record rest ih =>
    have hrecord := full record List.mem_cons_self
    obtain ⟨r, hr⟩ : ∃ r, resolve (pass.index.get? (o.key record)) (o.entry record).2 o.terms =
        .ok r := by
      rcases fits (o.key record) with haway | hheld
      · exact ⟨.reject, haway record List.mem_cons_self rfl⟩
      · exact adds.exists_resolve hrecord hheld
    obtain ⟨next, hone, htook, hworks⟩ := works.took hr
    rw [run_cons, hone]
    refine ih next hworks (fun other hmem => full other (List.mem_cons_of_mem _ hmem)) ?_
    intro key
    cases htook with
    | rejected _ resolution entries =>
      rw [entries]
      exact (fits key).imp_left fun haway => haway.of_cons rfl
    | written _ r entry resolution held entries =>
      by_cases hkey : o.key record = key
      · subst hkey
        right
        intro present hpresent
        rw [entries, Function.update_self, adds.eq_of_written resolution held] at hpresent
        cases hpresent
        exact hrecord
      · have hsame : next.index.get? key = pass.index.get? key := by
          rw [entries, Function.update_of_ne (Ne.symm hkey)]
        rw [hsame]
        exact (fits key).imp_left fun haway => haway.of_cons hsame

/-- An index that has accepted a record is open, and it goes on to answer. -/
lemma works_of_accepted {record : Record} {rest : List Record} {pass : Pass}
    (reliable : pass.index.Reliable) (accepted : (run o (record :: rest) pass).1 = none) :
    (run o (record :: rest) pass).2.index.Works := by
  have hreliable := KeyIndex.keptInUse_reliable.apply pass.index (o.key record)
    (o.entry record).2 o.terms reliable
  have hopen {update : Update}
      (h : (pass.index.apply (o.key record) (o.entry record).2 o.terms).1 = .ok update) :=
    KeyIndex.isClosed_of_apply_ok h
  simp only [run, Offering.entry_fst] at accepted ⊢
  generalize pass.index.apply (o.key record) (o.entry record).2 o.terms = call
    at hreliable hopen accepted ⊢
  obtain ⟨e | update, index⟩ := call
  · cases accepted
  · refine KeyIndex.keptInUse_works.passRun o rest _ ?_
    rw [note_index]
    exact ⟨hopen rfl, hreliable⟩

/-- A pass that was accepted is accepted again and changes nothing then. -/
theorem run_again (adds : o.Adds) {records : List Record} {first : Pass} {i : KeyIndex}
    (reliable : i.Reliable) (full : ∀ record ∈ records, o.IsFull types record)
    (accepted : run o records { index := i } = (none, first)) :
    ∃ second, run o records { index := first.index } = (none, second) ∧
      second.index.get? = first.index.get? := by
  cases records with
  | nil => exact ⟨_, rfl, rfl⟩
  | cons record rest =>
    have hworks : (run o (record :: rest) { index := i }).2.index.Works :=
      works_of_accepted reliable (congrArg Prod.fst accepted)
    have hfirst := fun key =>
      run_crowned adds _ { index := i } key full (congrArg Prod.fst accepted)
    rw [accepted] at hworks hfirst
    dsimp only at hworks hfirst
    have hagain : (run o (record :: rest) { index := first.index }).1 = none := by
      refine run_accepted adds _ _ hworks full fun key => ?_
      cases hfirst key with
      | kept away same =>
        refine .inl fun other hmem hkey => ?_
        rw [same]
        exact away other hmem hkey
      | won champion hchampion _ held =>
        refine .inr fun present hpresent => ?_
        rw [held] at hpresent
        cases hpresent
        exact full champion (mem_of_champion? hchampion)
    have hsecond := fun key =>
      run_crowned adds _ { index := first.index } key full hagain
    rcases hrun : run o (record :: rest) { index := first.index } with ⟨answer, second⟩
    rw [hrun] at hagain hsecond
    obtain rfl : answer = none := hagain
    refine ⟨second, rfl, funext fun key => ?_⟩
    cases hsecond key with
    | kept _ same => exact same
    | won champion hchampion notAway held =>
      cases hfirst key with
      | kept away same =>
        refine absurd (fun other hmem hkey => ?_) notAway
        rw [same]
        exact away other hmem hkey
      | won before hbefore _ hheld =>
        rw [hchampion] at hbefore
        cases hbefore
        rw [held, hheld]

end Pass

namespace Partition

variable {p : Partition}

/-- Without retention the terms of an addition depend on the settings only. -/
lemma adds_offering (upsert : p.settings.kind = .upsert)
    (lasting : p.settings.ttlEnabled = false) (segment : Segment) :
    (p.offering (.add segment) none).Adds :=
  ⟨upsert, rfl, rfl, floor_terms lasting⟩

lemma offering_eq (q : Partition) (lasting : p.settings.ttlEnabled = false)
    (hsettings : q.settings = p.settings) (change : SegmentChange)
    (old : Option (SegmentId × List Record)) : q.offering change old = p.offering change old := by
  simp [offering, terms, hsettings, lasting]

/-- An addition that was applied has offered the records of the segment to the index, and was
accepted. -/
lemma added_of_applied {segment : Segment} {counts : Counts}
    (applied : (p.change (.add segment)).1 = .ok (.applied counts)) :
    ∃ q records pass, p.start (.add segment) = (none, q) ∧ q.readAll segment = .ok records ∧
      Pass.run (q.offering (.add segment) none) records { index := q.index } = (none, pass) ∧
      (p.change (.add segment)).2.index = pass.index := by
  obtain ⟨q, hstart, hperformed⟩ := performed_of_applied applied
  generalize (p.change (.add segment)).2.index = index at hperformed ⊢
  generalize (q.perform (.add segment)).2.log = log at hperformed
  cases hperformed with
  | removed _ _ hchange => cases hchange
  | replaced _ _ _ _ _ hchange => cases hchange
  | added segment' records pass hchange hread hrun =>
    cases hchange
    exact ⟨q, records, pass, hstart, hread, hrun, rfl⟩

/-- **Adding a sealed segment again changes nothing.**  In an upsert table without retention,
with an index that answers: if all records of a segment have values of one type in each
comparison column, and the segment was added, then adding it at once a second time is applied
too, and every entry is as it was after the first time. -/
theorem adding_again_changes_nothing {segment : Segment} {records : List Record}
    {types : String → ValueType} {counts : Counts} (upsert : p.settings.kind = .upsert)
    (lasting : p.settings.ttlEnabled = false) (reliable : p.index.Reliable)
    (read : segment.read p.readRequest = .ok records)
    (full : ∀ record ∈ records, record.version.IsFull p.settings.comparisonColumns types)
    (applied : (p.change (.add segment)).1 = .ok (.applied counts)) :
    ∃ again, ((p.change (.add segment)).2.change (.add segment)).1 = .ok (.applied again) ∧
      ((p.change (.add segment)).2.change (.add segment)).2.index.get? =
        (p.change (.add segment)).2.index.get? := by
  obtain ⟨q, read', first, hstart, hread, hrun, hindex⟩ := added_of_applied applied
  have hsealed := sealed_of_start hstart rfl
  obtain ⟨watermark, gate, henter, rfl⟩ := start_none hstart
  obtain rfl : read' = records := Except.ok.inj ((read_of_readAll hread).symm.trans read)
  rw [offering_eq (p := p) { p with watermark, gate } lasting rfl] at hrun
  obtain ⟨second, hagain, hsame⟩ := Pass.run_again (adds_offering upsert lasting segment) reliable
    full hrun
  -- the second addition comes to the same gate with the same settings
  obtain ⟨index, watermark', metrics, log, hframe⟩ := p.change_frame (.add segment)
  rw [hframe] at hindex ⊢
  obtain rfl : index = first.index := hindex
  have hrestart := start_lasting (p := { p with
    index := first.index, watermark := watermark', metrics, log }) lasting henter
    (.add segment) hsealed
  obtain ⟨q, hq⟩ : ∃ q : Partition,
      q = { p with index := first.index, watermark := watermark', metrics, log, gate } := ⟨_, rfl⟩
  have hrerun : Pass.run (q.offering (.add segment) none) read' { index := q.index } =
      (none, second) := by
    rw [offering_eq (p := p) q lasting (by rw [hq]), hq]
    exact hagain
  have hreread : q.readAll segment = .ok read' := by
    rw [hq]
    exact hread
  obtain ⟨hresult, hlast⟩ := perform_add hreread hrerun
  rw [hq] at hresult hlast
  rw [change_of_start_none hrestart]
  refine ⟨second.counts, ?_, ?_⟩
  · dsimp only
    rw [hresult]
    rfl
  · change (perform _ _).2.index.get? = _
    rw [hlast]
    exact hsame

end Partition

namespace Sample

/-- A table whose versions are compared by a number and a time together, and keep for good. -/
def contest : Partition :=
  { partition { backend := .sorted {} } with
    settings := { settings with comparisonColumns := ["seq", "at"] } }

/-- A segment with three records of one key of which none loses to another. -/
def rivals : List Record := [numbered 1 0 1 9, numbered 1 1 9 1, numbered 1 2 5 5]

lemma isFull_numbered (key : Int64) (doc : UInt32) (seq at_ : Int64) :
    (numbered key doc seq at_).version.IsFull ["seq", "at"] fun _ => .int := by
  intro name hname
  rcases List.mem_cons.1 hname with rfl | hname
  · exact ⟨.int seq, rfl, rfl⟩
  · obtain rfl := List.mem_singleton.1 hname
    exact ⟨.int at_, rfl, rfl⟩

end Sample

/-- The key changes hands with every record, and again in the second pass, which starts from the
last of them. -/
theorem adding_again_changes_nothing_rivals :
    (Sample.contest.change (.add (Sample.segment 1 Sample.rivals))).1 =
      .ok (.applied { inserted := 1, superseded := 2 }) ∧
    ∃ p again, p = (Sample.contest.change (.add (Sample.segment 1 Sample.rivals))).2 ∧
      (p.change (.add (Sample.segment 1 Sample.rivals))).1 = .ok (.applied again) ∧
      (p.change (.add (Sample.segment 1 Sample.rivals))).2.index.get? = p.index.get? := by
  have happlied : (Sample.contest.change (.add (Sample.segment 1 Sample.rivals))).1 =
      .ok (.applied { inserted := 1, superseded := 2 }) := rfl
  have hfull : ∀ record ∈ Sample.rivals, record.version.IsFull
      Sample.contest.settings.comparisonColumns fun _ => .int := by
    intro record hmem
    rcases List.mem_cons.1 hmem with rfl | hmem
    · exact Sample.isFull_numbered _ _ _ _
    rcases List.mem_cons.1 hmem with rfl | hmem
    · exact Sample.isFull_numbered _ _ _ _
    obtain rfl := List.mem_singleton.1 hmem
    exact Sample.isFull_numbered _ _ _ _
  obtain ⟨again, hagain, hsame⟩ := Partition.adding_again_changes_nothing rfl rfl
    (fun call hmem => absurd hmem List.not_mem_nil) rfl hfull happlied
  exact ⟨happlied, _, again, rfl, hagain, hsame⟩

end PartitionKeys

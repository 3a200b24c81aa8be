/-
# Held versions only grow

In a table without retention, nothing that is held is stale.  So a single record for a key that
is held is turned away, refused, or joined with what is held, and in a join nothing is lost.
Through any calls that offer single records, with whatever results, each entry stays, its
version grows, and it moves to another place only where a record has superseded another one.
-/
import PartitionKeys.Proofs.Partition.Failure
import PartitionKeys.Proofs.Partition.Run
import PartitionKeys.Proofs.Version.Growth

namespace PartitionKeys

/-- A call that offers a single record, in whose version no name occurs twice. -/
def Call.OffersNamed : Call → Prop
  | .ingest _ record => record.version.columns.keys.Nodup
  | _ => False

/-- In no entry does a column name occur twice. -/
def Named (entries : IndexKey → Option Entry) : Prop :=
  ∀ key entry, entries key = some entry → entry.version.columns.keys.Nodup

/-! ## An offer by the per-column rule -/

section Offer

variable {before after : IndexKey → Option Entry} {key other : IndexKey} {entry proposed : Entry}
  {t : Terms} {answer : Except IndexError Update}

/-- An offer by the per-column rule leaves what is held or lets it grow; only an offer that
supersedes what is held moves it. -/
lemma Offered.grows (h : Offered before other proposed t answer after)
    (perColumn : t.rule = .perColumn) (free : t.replacing = none) (lasting : t.floor = none)
    (held : before key = some entry) :
    ∃ next, after key = some next ∧ entry.version.GrownInto next.version ∧
      (next.location ≠ entry.location → answer.map Update.outcome = .ok .superseded ∧
        other = key ∧ next.location = proposed.location) := by
  have stays (h : after key = some entry) :
      ∃ next, after key = some next ∧ entry.version.GrownInto next.version ∧
        (next.location ≠ entry.location → answer.map Update.outcome = .ok .superseded ∧
          other = key ∧ next.location = proposed.location) :=
    ⟨entry, h, .refl _, fun hne => absurd rfl hne⟩
  cases h with
  | refused => exact stays held
  | rejected => exact stays held
  | written r next resolution hr =>
    by_cases hkey : key = other
    · subst hkey
      have hlocation := resolve_location resolution hr
      rw [held] at resolution
      cases resolve_resolved resolution with
      | inserted stale =>
        -- without a floor nothing is stale
        have hstale := stale entry rfl
        simp [Terms.isStale, lasting] at hstale
      | tookOver present _ _ owned => simp [Terms.ownedByReplaced, free] at owned
      | kept => cases hr
      | won present version hpresent _ _ _ hdecide =>
        cases hpresent
        cases hr
        rw [perColumn] at hdecide
        refine ⟨_, Function.update_self .., ?_, fun _ => ⟨rfl, rfl, hlocation⟩⟩
        exact Version.grownInto_join (Version.join_of_decide hdecide)
    · refine stays ?_
      rw [Function.update_of_ne hkey]
      exact held

/-- An offer by the per-column rule repeats no name. -/
lemma Offered.named (h : Offered before other proposed t answer after)
    (perColumn : t.rule = .perColumn) (hproposed : proposed.version.columns.keys.Nodup)
    (named : Named before) : Named after := by
  cases h with
  | refused => exact named
  | rejected => exact named
  | written r next resolution hr =>
    intro key entry hentry
    by_cases hkey : key = other
    · subst hkey
      rw [Function.update_self] at hentry
      cases hentry
      cases resolve_resolved resolution with
      | inserted | tookOver =>
        cases hr
        exact hproposed
      | kept => cases hr
      | won present version hpresent _ _ _ hdecide =>
        cases hr
        rw [perColumn] at hdecide
        exact Version.nodup_keys_join (Version.join_of_decide hdecide) hproposed
          (named key present hpresent)
    · rw [Function.update_of_ne hkey] at hentry
      exact named key entry hentry

end Offer

namespace Partition

variable {p q : Partition} {key : IndexKey} {entry : Entry}

/-! ## A single record -/

lemma ingest_named (segment : SegmentId) {record : Record}
    (hrecord : record.version.columns.keys.Nodup) (named : Named p.index.get?) :
    Named (p.ingest segment record).2.index.get? := by
  have hingested := p.ingest_ingested segment record
  generalize (p.ingest segment record).1 = result at hingested
  generalize (p.ingest segment record).2.index = index at hingested ⊢
  cases hingested with
  | skipped => exact named
  | refused watermark => exact (p.index.apply_offered ..).named rfl hrecord named
  | indexed watermark => exact (p.index.apply_offered ..).named rfl hrecord named

/-- While a record is taken in, an entry stays where it is, or the record supersedes it. -/
lemma ingest_grows (lasting : p.settings.ttlEnabled = false) (segment : SegmentId)
    (record : Record) (held : p.index.get? key = some entry) :
    ∃ next, (p.ingest segment record).2.index.get? key = some next ∧
      entry.version.GrownInto next.version ∧
      (next.location ≠ entry.location →
        (p.ingest segment record).1 = .ok (.indexed .superseded) ∧
          p.keyOf record.key = key ∧ next.location = ⟨segment, record.doc⟩) := by
  have hingested := p.ingest_ingested segment record
  generalize (p.ingest segment record).1 = result at hingested
  generalize (p.ingest segment record).2.index = index at hingested ⊢
  cases hingested with
  | skipped => exact ⟨entry, held, .refl _, fun hne => absurd rfl hne⟩
  | refused watermark e h =>
    obtain ⟨next, hnext, hgrown, hmoved⟩ := (p.index.apply_offered _ _ _).grows rfl rfl
      (floor_terms (p := { p with watermark }) lasting) held
    refine ⟨next, hnext, hgrown, fun hne => ?_⟩
    -- a refused offer moves nothing
    have hanswer := (hmoved hne).1
    rw [applyRecord] at h
    rw [h] at hanswer
    cases hanswer
  | indexed watermark update h =>
    obtain ⟨next, hnext, hgrown, hmoved⟩ := (p.index.apply_offered _ _ _).grows rfl rfl
      (floor_terms (p := { p with watermark }) lasting) held
    refine ⟨next, hnext, hgrown, fun hne => ?_⟩
    obtain ⟨hanswer, hplace⟩ := hmoved hne
    rw [applyRecord] at h
    rw [h] at hanswer
    rw [Except.ok.inj hanswer]
    exact ⟨rfl, hplace⟩

/-! ## Runs -/

lemma run_named {calls : List Call} (offers : ∀ call ∈ calls, call.OffersNamed)
    (named : Named p.index.get?) : Named (p.run calls).index.get? := by
  refine run_induction (motive := fun q => Named q.index.get?) (fun q call hmem h => ?_) named
  have hoffers := offers call hmem
  cases call with
  | ingest segment record => exact ingest_named segment hoffers h
  | change | sweep | stop | close => exact hoffers.elim

/-- Through calls that offer single records an entry stays and its version grows. -/
lemma run_grows (lasting : p.settings.ttlEnabled = false) {calls : List Call}
    (offers : ∀ call ∈ calls, call.OffersNamed) (held : p.index.get? key = some entry) :
    ∃ grown, (p.run calls).index.get? key = some grown ∧
      entry.version.GrownInto grown.version := by
  refine (run_induction (motive := fun q => q.settings = p.settings ∧
    ∃ grown, q.index.get? key = some grown ∧ entry.version.GrownInto grown.version) ?_
    ⟨rfl, entry, held, .refl _⟩).2
  rintro q call hmem ⟨hsettings, grown, hheld, hgrown⟩
  refine ⟨(q.call_settings call).trans hsettings, ?_⟩
  have hoffers := offers call hmem
  cases call with
  | ingest segment record =>
    obtain ⟨next, hnext, hmore, -⟩ := ingest_grows (by rwa [hsettings]) segment record hheld
    exact ⟨next, hnext, hgrown.trans hmore⟩
  | change | sweep | stop | close => exact hoffers.elim

/-- **Held versions only grow.**  Take a table without retention after any calls, from an empty
index, that offer single records, with whatever results.  In each entry:
* no column name occurs twice in the version;
* through all further calls of this kind, with whatever results, the entry stays, no column name
  of its version is lost, and where it has a value it goes on having one, of the same type and
  never a smaller one;
* the place changes only while a record for this key supersedes what is held, and is then that
  of the record. -/
theorem held_versions_grow (lasting : p.settings.ttlEnabled = false) (empty : p.index.keys = [])
    {calls : List Call} (offers : ∀ call ∈ calls, call.OffersNamed) (run : p.run calls = q)
    (held : q.index.get? key = some entry) :
    entry.version.columns.keys.Nodup ∧
    (∀ later : List Call, (∀ call ∈ later, call.OffersNamed) →
      ∃ grown, (q.run later).index.get? key = some grown ∧
        entry.version.GrownInto grown.version) ∧
    ∀ segment record,
      ∃ next, (q.ingest segment record).2.index.get? key = some next ∧
        (next.location ≠ entry.location →
          (q.ingest segment record).1 = .ok (.indexed .superseded) ∧
            q.keyOf record.key = key ∧ next.location = ⟨segment, record.doc⟩) := by
  have lasting : q.settings.ttlEnabled = false := by rwa [← run, run_settings]
  have named : Named q.index.get? := by
    rw [← run]
    refine run_named offers fun key entry hentry => ?_
    rw [KeyIndex.get?_of_keys_eq_nil empty key] at hentry
    cases hentry
  refine ⟨named key entry held, fun later hlater => run_grows lasting hlater held,
    fun segment record => ?_⟩
  obtain ⟨next, hnext, -, hmoved⟩ := ingest_grows lasting segment record held
  exact ⟨next, hnext, hmoved⟩

end Partition

namespace Sample

/-- A call that offers a record of key 1 with some columns. -/
def patch (doc : UInt32) (columns : Assoc String Cell) : Call :=
  .ingest ⟨7, "s7"⟩ ⟨⟨[.int 1]⟩, doc, ⟨columns⟩⟩

/-- A number comes after a time. -/
def patches : List Call :=
  [patch 0 [("at", .full (.int 5)), ("seq", .null .int)], patch 1 [("seq", .full (.int 3))]]

/-- A time of another type is refused, then a later time comes without a number. -/
def furtherPatches : List Call :=
  [patch 2 [("at", .full (.string "now"))],
    patch 3 [("at", .full (.int 7)), ("seq", .null .int)]]

/-- What the first two records leave. -/
def patchedEntry : Entry :=
  .of ⟨⟨7, "s7"⟩, 1⟩ ⟨[("seq", .full (.int 3)), ("at", .full (.int 5))]⟩ (some "at")

end Sample

open Sample in
/-- A number joins the time of its key, and both outlast a record that is refused. -/
theorem held_versions_grow_patched :
    ((partition { backend := .sorted {} }).run patches).index.get? (key 1) = some patchedEntry ∧
      patchedEntry.version.columns.keys.Nodup ∧
      ∃ grown, (((partition { backend := .sorted {} }).run patches).run furtherPatches).index.get?
        (key 1) = some grown ∧ patchedEntry.version.GrownInto grown.version := by
  have hpatches : ∀ call ∈ patches, call.OffersNamed := by
    simp [patches, patch, Call.OffersNamed, Assoc.keys]
  have hfurther : ∀ call ∈ furtherPatches, call.OffersNamed := by
    simp [furtherPatches, patch, Call.OffersNamed, Assoc.keys]
  have held : ((partition { backend := .sorted {} }).run patches).index.get? (key 1) =
      some patchedEntry := by decide +kernel
  obtain ⟨hnodup, hgrows, -⟩ := Partition.held_versions_grow rfl rfl hpatches rfl held
  exact ⟨held, hnodup, hgrows furtherPatches hfurther⟩

end PartitionKeys

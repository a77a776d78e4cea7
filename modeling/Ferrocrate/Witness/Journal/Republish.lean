import Ferrocrate.Lib.Sha256
import Ferrocrate.Witness.Journal.Reopened
import Ferrocrate.Witness.Journal.Session

/-! A checkpoint publication made a second time (`append_checkpoint_publication`): it finds the
event in the index of all events, and then looks for its record among the active ones only. -/
namespace Ferrocrate.Witness
open Lib Lib.Program Journal

def RecordActive (eventId : Id) (j : WitnessJournal) : Prop :=
  ∃ sequence bytes, j.store.events.get eventId = some sequence ∧
    j.store.records.get sequence = some bytes

structure Unchanged (j j' : WitnessJournal) : Prop where
  records : Journal.records j' = Journal.records j
  head : j'.head = j.head
  events : j'.store.events = j.store.events
  operations : j'.store.operations = j.store.operations

def PublishesAgain (sha256 : Hasher) (artifactDigest : Digest) (record : WitnessRecord)
    (j : WitnessJournal) : Prop :=
  (appendCheckpointPublication sha256 artifactDigest record).result j = .ok () ∧
    Unchanged j ((appendCheckpointPublication sha256 artifactDigest record).after j)

namespace Journal

structure Publishable (artifactDigest : Digest) (record : WitnessRecord) : Prop where
  stage : record.stage = .checkpointPublished
  action : record.action = .checkpointPublish
  outcome : record.outcome = .succeeded
  valid : validateRecord { record with resultDigest := some artifactDigest } = .ok ()

end Journal

def Ledger.Lists (artifactDigest : Digest) (record : WitnessRecord) (l : Ledger) : Prop :=
  ∃ r ∈ l.entries, r.eventId = record.eventId ∧ r.epoch = record.epoch ∧
    r.stage = .checkpointPublished ∧ r.resultDigest = some artifactDigest

variable {sha256 : Hasher} {config : JournalConfig} {l l' : Ledger} {j : WitnessJournal}
  {artifactDigest : Digest} {record : WitnessRecord}

theorem Ledger.Lists.of_prefix (h : l.Lists artifactDigest record) (hp : l.entries <+: l'.entries) :
    l'.Lists artifactDigest record := by
  obtain ⟨r, hr, hlisted⟩ := h
  exact ⟨r, hp.subset hr, hlisted⟩

theorem Refines.publication_committed (h : Refines sha256 config l j)
    (hnew : j.store.events.get record.eventId = none)
    (hcommitted : ((appendCheckpointPublication sha256 artifactDigest record).after j).store.events.get
      record.eventId ≠ none) :
    Publishable artifactDigest record ∧ record.epoch = j.epoch ∧
      ∃ l', Refines sha256 config l'
          ((appendCheckpointPublication sha256 artifactDigest record).after j) ∧
        l'.epoch = l.epoch ∧ l'.Lists artifactDigest record ∧
        RecordActive record.eventId
          ((appendCheckpointPublication sha256 artifactDigest record).after j) := by
  have hfresh : l.Fresh record.eventId := by
    by_contra hknown
    have hcontains := (h.represents.contains_event _).mpr hknown
    simp [Tree.contains, hnew] at hcontains
  have hwp : wp (appendCheckpointPublication sha256 artifactDigest record)
      (fun _ u => Refines sha256 config l u ∨ Publishable artifactDigest record ∧
        Published sha256 config l { record with resultDigest := some artifactDigest } u)
      (fun _ u => Refines sha256 config l u ∨ Publishable artifactDigest record ∧
        Published sha256 config l { record with resultDigest := some artifactDigest } u) j := by
    simp only [appendCheckpointPublication, wp_bind, wp_rejectIf, wp_ofExcept, ne_eq, not_or,
      not_not]
    refine ⟨fun _ => .inl h, fun hchecked => ⟨fun _ hvalid => ?_, fun _ _ => .inl h⟩⟩
    have hpublishable : Publishable artifactDigest record :=
      ⟨hchecked.1, hchecked.2.1, hchecked.2.2, hvalid⟩
    refine wp_mono (publishLocked_published artifactDigest
      { record with resultDigest := some artifactDigest } hchecked.1 h) ?_ ?_
    · intro _ _ hr
      exact hr.imp And.left fun hp => ⟨hpublishable, hp⟩
    · intro _ _ hr
      exact hr.imp_right fun hp => ⟨hpublishable, hp⟩
  cases after_of_wp hwp with
  | inl hl =>
    have hcontains := (hl.represents.contains_event record.eventId).mp
      (Option.isSome_iff_ne_none.mpr hcommitted)
    exact absurd hfresh hcontains
  | inr hpublished =>
    obtain ⟨hpublishable, hp⟩ := hpublished
    have hentry := List.mem_append_right l.entries (List.mem_singleton.mpr
      (rfl : l.stamp sha256 config.journalId l.epoch
        { record with resultDigest := some artifactDigest } = _))
    exact ⟨hpublishable, hp.epoch.trans h.epoch.symm, _, hp.refines, rfl,
      ⟨_, hentry, rfl, hp.epoch.symm, hp.stage, rfl⟩,
      _, _, (hp.refines.represents.events _ _).mpr ⟨_, hentry, rfl, rfl⟩, hp.active⟩

theorem Refines.publishesAgain_iff (h : Refines sha256 config l j)
    (hlists : l.Lists artifactDigest record) (hchecks : Publishable artifactDigest record)
    (hepoch : record.epoch = j.epoch) :
    PublishesAgain sha256 artifactDigest record j ↔ RecordActive record.eventId j := by
  obtain ⟨r, hr, hevent, hrecordEpoch, hstage, hdigest⟩ := hlists
  have hindex := (h.represents.events record.eventId r.sequence).mpr ⟨r, hr, hevent, rfl⟩
  constructor
  · intro hagain
    by_contra hsealed
    have hgone : j.store.records.get r.sequence = none := by
      by_contra hpresent
      obtain ⟨bytes, hbytes⟩ := Option.ne_none_iff_exists'.mp hpresent
      exact hsealed ⟨_, bytes, hindex, hbytes⟩
    have hfails : wp (appendCheckpointPublication sha256 artifactDigest record) (fun _ _ => False)
        (fun _ _ => True) j := by
      simp [appendCheckpointPublication, publishLocked, wp_bind, wp_rejectIf, wp_ofExcept, wp_get,
        wp_okOr, hindex, hgone, hchecks.stage, hchecks.action, hchecks.outcome, hepoch]
    rw [wp_iff] at hfails
    exact hfails.1 () hagain.1
  · intro hactive
    obtain ⟨sequence, bytes, hsequence, hbytes⟩ := hactive
    obtain rfl := Option.some.inj (hindex.symm.trans hsequence)
    obtain ⟨r', hr', hseq', rfl⟩ := h.represents.entry_of_get hbytes
    obtain rfl := h.represents.wellFormed.eq_of_sequence hr hr' hseq'.symm
    have hrecorded : Recorded artifactDigest { record with resultDigest := some artifactDigest } j :=
      ⟨hepoch, _, _, _, hindex, hbytes,
        decodeRecord_recordLayout (h.represents.wellFormed.valid r hr), hrecordEpoch, hstage, hdigest⟩
    have hagain : appendCheckpointPublication sha256 artifactDigest record j = (.ok (), j) := by
      refine bind_eq_ok.mpr ⟨(), j, ?_, bind_eq_ok.mpr ⟨(), j, ?_, publishLocked_again sha256 hrecorded⟩⟩
      · rw [rejectIf, if_neg (by simp [hchecks.stage, hchecks.action, hchecks.outcome])]
        rfl
      · rw [hchecks.valid]
        rfl
    rw [PublishesAgain, result, after, hagain]
    exact ⟨rfl, rfl, rfl, rfl, rfl⟩

theorem Refines.recordActive_of_unsealed {j' : WitnessJournal} {eventId : Id}
    (h : Refines sha256 config l j) (h' : Refines sha256 config l' j')
    (hp : l.entries <+: l'.entries)
    (hunsealed : j'.store.sealedSegments.entries = j.store.sealedSegments.entries)
    (hactive : RecordActive eventId j) : RecordActive eventId j' := by
  obtain ⟨sequence, bytes, hindex, hbytes⟩ := hactive
  obtain ⟨blocks, active, hentries, hscan⟩ := h.represents.scan
  obtain ⟨blocks', active', hentries', hscan'⟩ := h'.represents.scan
  have hsealed : blocks.flatten.length = blocks'.flatten.length := by
    have hparsed := hscan'.mapM_parseSegment
    rw [hunsealed, hscan.mapM_parseSegment] at hparsed
    have hcount := congrArg (fun segments => segments.flatten.length) (Except.ok.inj hparsed)
    simpa [List.length_flatten, Function.comp_def] using hcount
  obtain ⟨r, hr, hevent, rfl⟩ := (h.represents.events _ _).mp hindex
  have hmem : r ∈ active := by
    have hkeyed := (Tree.get_eq_some_iff _).mp hbytes
    rw [hscan.records] at hkeyed
    obtain ⟨r', hr', heq⟩ := List.mem_map.mp hkeyed
    obtain rfl := h.represents.wellFormed.eq_of_sequence hr
      (hentries ▸ List.mem_append_right _ hr') (Prod.mk.inj heq).1.symm
    exact hr'
  have hmem' : r ∈ active' := by
    obtain ⟨more, hmore⟩ := hp
    rw [hentries, hentries', List.append_assoc] at hmore
    rw [← (List.append_inj hmore hsealed).2]
    exact List.mem_append_left _ hmem
  refine ⟨r.sequence, recordLayout config.journalId r,
    (h'.represents.events _ _).mpr ⟨r, hp.subset hr, hevent, rfl⟩, ?_⟩
  rw [Tree.get_eq_some_iff, hscan'.records]
  exact List.mem_map_of_mem hmem'

/-- After a publication that was put on record, and in whatever state of the same epoch the calls,
faults and restarts that follow have brought the journal, the publication is made again exactly
when its record is still active; it is when no segment has been sealed. -/
theorem publication_idempotent_iff (sha256 : Hasher) (config : JournalConfig)
    (faults : Finset FaultPoint) (earlier later : List SessionStep) (artifactDigest : Digest)
    (record : WitnessRecord) (j published last : WitnessJournal)
    (hj : j = runSession sha256 earlier (.create config faults))
    (hpublished : published = (appendCheckpointPublication sha256 artifactDigest record).after j)
    (hlast : last = runSession sha256 later published)
    (hnew : j.store.events.get record.eventId = none)
    (hcommitted : published.store.events.get record.eventId ≠ none)
    (hepoch : last.epoch = published.epoch) :
    (PublishesAgain sha256 artifactDigest record last ↔ RecordActive record.eventId last) ∧
    (last.store.sealedSegments.entries = published.store.sealedSegments.entries →
      RecordActive record.eventId last) := by
  obtain ⟨l, h, -⟩ := runSession_refines (P := fun _ => True) earlier (fun _ _ _ _ _ h => h)
    (create_refines sha256 config faults) trivial
  rw [← hj] at h
  subst hpublished
  obtain ⟨hchecks, hrecordEpoch, m, hm, hmEpoch, hlists, hactive⟩ :=
    h.publication_committed hnew hcommitted
  obtain ⟨l', h', hp⟩ := runSession_refines (P := fun l' => m.entries <+: l'.entries) later
    (fun _ _ _ _ hmoves hp => hp.trans hmoves.entries_prefix) hm List.prefix_rfl
  rw [← hlast] at h'
  have hkept : record.epoch = last.epoch := by
    rw [hrecordEpoch, hepoch, hm.epoch, hmEpoch, h.epoch]
  exact ⟨h'.publishesAgain_iff (hlists.of_prefix hp) hchecks hkept,
    fun hunsealed => hm.recordActive_of_unsealed h' hp hunsealed hactive⟩

def publication : WitnessRecord := plainRecord (.fill 16 7) (.fill 16 1) .checkpointPublished

def publishedAnd (sha256 : Hasher) (later : List SessionStep) : WitnessJournal :=
  runSession sha256 later ((appendCheckpointPublication sha256 (.zero 32) publication).after
    (.create (.new (.zero 16) .required) ∅))

theorem publication_idempotent_after_request :
    PublishesAgain Sha256.sha256 (.zero 32) publication
      (publishedAnd Sha256.sha256 [.call (.appendReceived (.fill 16 8) 1 plainRecipe
        (plainRecord (.fill 16 8) (.fill 16 2) .requestReceived))]) := by
  have hiff := publication_idempotent_iff Sha256.sha256 (.new (.zero 16) .required) ∅ []
    [.call (.appendReceived (.fill 16 8) 1 plainRecipe
      (plainRecord (.fill 16 8) (.fill 16 2) .requestReceived))] (.zero 32) publication _ _ _ rfl rfl
    rfl rfl
    (by rw [Sha256.sha256_eq_unrolled]; decide +kernel)
    (by rw [Sha256.sha256_eq_unrolled]; decide +kernel)
  refine hiff.1.mpr (hiff.2 ?_)
  rw [Sha256.sha256_eq_unrolled]
  decide +kernel

/-- A published checkpoint whose record has been sealed is reported as corruption. -/
theorem sealed_publication_corrupt :
    (appendCheckpointPublication Sha256.sha256 (.zero 32) publication).result
        (.create (.new (.zero 16) .required) ∅) = .ok () ∧
      (appendCheckpointPublication Sha256.sha256 (.zero 32) publication).result
        (publishedAnd Sha256.sha256 [.call .maintain]) = .error .corrupt ∧
      (publishedAnd Sha256.sha256 [.call .maintain]).epoch
        = (publishedAnd Sha256.sha256 []).epoch := by
  rw [Sha256.sha256_eq_unrolled]
  decide +kernel

end Ferrocrate.Witness

import Ferrocrate.Witness.Journal.Run

/-! What a restart keeps: a publication that succeeds on a journal succeeds on the same journal
opened again, and once it is on record it succeeds again and changes nothing. -/
namespace Ferrocrate.Witness
open Lib Lib.Program Journal

structure Reopened (j j' : WitnessJournal) : Prop where
  config : j'.config = j.config
  store : j'.store = j.store
  epoch : j'.epoch = j.epoch
  faults : j'.faults = ∅

theorem Reopened.head {j j' : WitnessJournal} (h : Reopened j j') : j'.head = j.head := by
  rw [WitnessJournal.head, WitnessJournal.head, h.store]

variable {sha256 : Hasher} {config : JournalConfig}

theorem Refines.reopened {l : Ledger}
    {j : WitnessJournal} (h : Refines sha256 config l j) {mirror : ReadMirror} {j' : WitnessJournal}
    (hopen : j.reopen ∅ mirror = .ok j') : Reopened j j' := by
  simp only [WitnessJournal.reopen, Except.ite_error_eq_ok] at hopen
  obtain ⟨-, -, -, -, -, hj'⟩ := hopen
  obtain rfl := Except.ok.inj hj'
  exact ⟨rfl, rfl, h.represents.epoch.trans h.epoch.symm, rfl⟩

theorem Refines.of_reopened {l : Ledger}
    {j j' : WitnessJournal} (h : Refines sha256 config l j) (hr : Reopened j j') :
    Refines sha256 config l j' :=
  ⟨hr.config.trans h.sameConfig, by rw [hr.store]; exact h.represents, hr.epoch.trans h.epoch,
    by rw [hr.store]; exact h.room, h.enabled⟩

namespace Journal
variable {j j' : WitnessJournal}

theorem failAt_follows (h : Reopened j j') (point : FaultPoint) (e : JournalError) :
    Follows (failAt point e) (failAt point e) (fun _ u _ u' => Reopened u u') j j' := by
  refine follows_bind ?_
  rintro hit u ⟨⟩
  refine ⟨decide (point ∈ j'.faults), { j' with faults := j'.faults.erase point }, rfl, ?_⟩
  refine follows_rejectIf (fun hset => ?_) (fun _ => ?_)
  · rw [h.faults] at hset
    simp at hset
  · exact ⟨h.config, h.store, h.epoch, by rw [h.faults]; rfl⟩

theorem preflight_follows (h : Reopened j j') (boundary : FlushBoundary) :
    Follows (preflight boundary) (preflight boundary) (fun _ u _ u' => Reopened u u') j j' := by
  refine follows_bind (follows_get ?_)
  refine follows_bind (follows_rejectIf (by rw [h.config]; exact id) fun _ => ?_)
  refine follows_bind ((failAt_follows h _ _).mono fun _ u _ u' hu => ?_)
  exact failAt_follows hu _ _

theorem flush_follows (h : Reopened j j') (boundary : FlushBoundary) (id : OperationId) :
    Follows (flush boundary id) (flush boundary id) (fun _ u _ u' => Reopened u u') j j' := by
  refine follows_bind ((failAt_follows h _ _).mono fun _ u _ u' hu => ?_)
  refine follows_bind ((failAt_follows hu _ _).mono fun _ v _ v' hv => ?_)
  exact failAt_follows hv _ _

theorem transaction_follows (h : Reopened j j') (body : Store → Except JournalError Store) :
    Follows (transaction body) (transaction body) (fun _ u _ u' => Reopened u u') j j' := by
  refine follows_bind (follows_get ?_)
  rw [h.store]
  refine follows_bind (follows_ofExcept fun store _ => ?_)
  refine follows_bind (follows_rejectIf (by rw [h.config]; exact id) fun _ => ?_)
  rintro _ _ ⟨⟩
  exact ⟨_, _, rfl, h.config, rfl, h.epoch, h.faults⟩

theorem sealActiveSegment_follows (h : Reopened j j') (force : Bool) :
    Follows (sealActiveSegment force) (sealActiveSegment force)
      (fun _ u _ u' => Reopened u u') j j' := by
  refine follows_bind ((failAt_follows h _ _).mono fun _ u _ u' hu => ?_)
  refine follows_bind (follows_get ?_)
  rw [hu.store, hu.config, hu.head]
  refine follows_ite (fun _ => follows_pure hu) (fun _ => ?_)
  refine follows_bind (follows_okOr fun next _ => ?_)
  exact transaction_follows hu _

theorem ensureUserCapacity_follows (h : Reopened j j') (additional : Nat) :
    Follows (ensureUserCapacity additional) (ensureUserCapacity additional)
      (fun _ u _ u' => Reopened u u') j j' := by
  refine follows_bind (follows_get ?_)
  rw [h.store, h.config]
  refine follows_bind (follows_rejectIf id fun _ => ?_)
  refine follows_bind (follows_okOr fun userLimit _ => ?_)
  refine follows_bind (follows_rejectIf id fun _ => ?_)
  refine follows_runIf (fun _ => ?_) (fun _ => h)
  exact follows_failingWith (sealActiveSegment_follows h true)

theorem updateReadMirrorBestEffort_frame (j : WitnessJournal) :
    ∃ u, updateReadMirrorBestEffort j = (.ok (), u) ∧ u.config = j.config ∧ u.store = j.store ∧
      u.epoch = j.epoch ∧ u.faults = j.faults := by
  have hframe : wp updateReadMirrorBestEffort (fun _ u => u.config = j.config ∧ u.store = j.store ∧
      u.epoch = j.epoch ∧ u.faults = j.faults) (fun _ _ => False) j :=
    updateReadMirrorBestEffort_returns (fun _ _ h => h) ⟨rfl, rfl, rfl, rfl⟩
  obtain ⟨_, hok, hu⟩ := ok_of_wp hframe
  exact ⟨_, Prod.ext hok rfl, hu⟩

theorem updateReadMirrorBestEffort_follows (h : Reopened j j') :
    Follows updateReadMirrorBestEffort updateReadMirrorBestEffort
      (fun _ u _ u' => Reopened u u') j j' := by
  obtain ⟨v, hv, hconfig, hstore, hepoch, -⟩ := updateReadMirrorBestEffort_frame j
  obtain ⟨v', hv', hconfig', hstore', hepoch', hfaults'⟩ := updateReadMirrorBestEffort_frame j'
  intro _ u hu
  obtain ⟨-, rfl⟩ := Prod.mk.inj (hv.symm.trans hu)
  exact ⟨(), v', hv', by rw [hconfig', hconfig, h.config], by rw [hstore', hstore, h.store],
    by rw [hepoch', hepoch, h.epoch], hfaults'.trans h.faults⟩

theorem publishLocked_follows (h : Reopened j j') (sha256 : Hasher) (artifactDigest : Digest)
    (record : WitnessRecord) :
    Follows (publishLocked sha256 artifactDigest record) (publishLocked sha256 artifactDigest record)
      (fun _ u _ u' => Reopened u u') j j' := by
  refine follows_bind (follows_get ?_)
  refine follows_bind (follows_rejectIf (by rw [h.epoch]; exact id) fun _ => ?_)
  rw [h.store]
  cases j.store.events.get record.eventId with
  | some sequence =>
    refine follows_bind (follows_okOr fun bytes _ => ?_)
    refine follows_bind (follows_ofExcept fun existing _ => ?_)
    exact follows_rejectIf id fun _ => h
  | none =>
    refine follows_bind ((preflight_follows h _).mono fun _ u _ u' hu => ?_)
    refine follows_bind ((failAt_follows hu _ _).mono fun _ v _ v' hv => ?_)
    refine follows_bind (follows_get ?_)
    rw [hv.head, hv.config]
    refine follows_bind (follows_okOr fun next _ => ?_)
    refine follows_bind (follows_ofExcept fun bytes _ => ?_)
    refine follows_bind ((ensureUserCapacity_follows hv _).mono fun _ w _ w' hw => ?_)
    refine follows_bind ((transaction_follows hw _).mono fun _ x _ x' hx => ?_)
    refine follows_bind ((flush_follows hx _ _).mono fun _ y _ y' hy => ?_)
    exact updateReadMirrorBestEffort_follows hy

theorem appendCheckpointPublication_follows (h : Reopened j j') (sha256 : Hasher)
    (artifactDigest : Digest) (record : WitnessRecord) :
    Follows (appendCheckpointPublication sha256 artifactDigest record)
      (appendCheckpointPublication sha256 artifactDigest record)
      (fun _ u _ u' => Reopened u u') j j' := by
  refine follows_bind (follows_rejectIf id fun _ => ?_)
  refine follows_bind (follows_ofExcept fun _ _ => ?_)
  exact publishLocked_follows h sha256 artifactDigest _

def Recorded (artifactDigest : Digest) (record : WitnessRecord) (j : WitnessJournal) : Prop :=
  record.epoch = j.epoch ∧ ∃ sequence bytes d, j.store.events.get record.eventId = some sequence ∧
    j.store.records.get sequence = some bytes ∧ decodeRecord bytes = .ok d ∧
    d.record.epoch = record.epoch ∧ d.record.stage = .checkpointPublished ∧
    d.record.resultDigest = some artifactDigest

variable {artifactDigest : Digest} {record : WitnessRecord}

theorem Recorded.reopened
    (h : Recorded artifactDigest record j) (hr : Reopened j j') :
    Recorded artifactDigest record j' := by
  rw [Recorded, hr.store, hr.epoch]
  exact h

theorem publishLocked_again (sha256 : Hasher) (h : Recorded artifactDigest record j) :
    publishLocked sha256 artifactDigest record j = (.ok (), j) := by
  obtain ⟨hepoch, sequence, bytes, d, hevent, hbytes, hd, hmatch⟩ := h
  refine bind_eq_ok.mpr ⟨j, j, rfl, bind_eq_ok.mpr ⟨(), j, ?_, ?_⟩⟩
  · rw [rejectIf, if_neg (not_not.mpr hepoch)]
    rfl
  · simp only [hevent]
    refine bind_eq_ok.mpr ⟨bytes, j, by rw [hbytes]; rfl, bind_eq_ok.mpr ⟨d, j, by rw [hd]; rfl, ?_⟩⟩
    rw [rejectIf, if_neg (not_not.mpr hmatch)]
    rfl

section Ledger
variable {sha256 : Hasher} {config : JournalConfig} {l : Ledger} {artifactDigest : Digest}
  {record : WitnessRecord}

theorem Published.recorded
    (h : Published sha256 config l record j) (hdigest : record.resultDigest = some artifactDigest) :
    Recorded artifactDigest record j := by
  refine ⟨h.epoch.trans h.refines.epoch.symm, _, _, _, ?_, h.active,
    decodeRecord_recordLayout h.valid, h.epoch.symm, h.stage, hdigest⟩
  rw [h.refines.represents.events]
  exact ⟨_, List.mem_append_right _ (List.mem_singleton.mpr rfl), rfl, rfl⟩

theorem publishLocked_recorded (artifactDigest : Digest) (record : WitnessRecord)
    (hstage : record.stage = .checkpointPublished) (hdigest : record.resultDigest = some artifactDigest)
    (h : Refines sha256 config l j) :
    wp (publishLocked sha256 artifactDigest record)
      (fun _ u => Recorded artifactDigest record u) (fun _ _ => True) j := by
  cases hevent : j.store.events.get record.eventId with
  | some sequence =>
    simp only [publishLocked, wp_bind, wp_rejectIf, wp_get, ne_eq, not_not, hevent, wp_okOr,
      wp_ofExcept]
    refine ⟨fun _ => trivial, fun hepoch => ⟨fun bytes hbytes => ⟨fun d hd => ⟨fun _ => trivial,
      fun hmatch => ?_⟩, fun _ _ => trivial⟩, fun _ => trivial⟩⟩
    exact ⟨hepoch, sequence, bytes, d, hevent, hbytes, hd, hmatch⟩
  | none =>
    have hfresh : l.Fresh record.eventId := by
      by_contra hknown
      have hcontains := (h.represents.contains_event _).mpr hknown
      simp [Tree.contains, hevent] at hcontains
    refine wp_mono (publishLocked_published artifactDigest record hstage h) ?_ (fun _ _ _ => trivial)
    rintro _ u (⟨-, hknown⟩ | hp)
    · exact absurd hfresh hknown
    · exact hp.recorded hdigest

theorem appendCheckpointPublication_ok
    {u : WitnessJournal} (h : Refines sha256 config l j)
    (hok : appendCheckpointPublication sha256 artifactDigest record j = (.ok (), u)) :
    (∃ l', Refines sha256 config l' u ∧ l.entries <+: l'.entries ∧
      l'.entries.length ≤ l.entries.length + 1) ∧
    Recorded artifactDigest record u ∧
    ∀ u', Reopened u u' →
      appendCheckpointPublication sha256 artifactDigest record u' = (.ok (), u') := by
  obtain ⟨⟨⟩, _, hstage, hpublish⟩ := bind_eq_ok.mp hok
  obtain ⟨⟨⟩, _, hvalid, hpublish⟩ := bind_eq_ok.mp hpublish
  rw [rejectIf] at hstage
  split at hstage
  · cases hstage
  next hchecked =>
  obtain ⟨-, rfl⟩ := Prod.mk.inj hstage
  cases hv : validateRecord { record with resultDigest := some artifactDigest } with
  | error e =>
    rw [hv] at hvalid
    cases hvalid
  | ok _ =>
    rw [hv] at hvalid
    obtain ⟨-, rfl⟩ := Prod.mk.inj hvalid
    have hstage' : record.stage = .checkpointPublished := by
      simp only [ne_eq, not_or, not_not] at hchecked
      exact hchecked.1
    have hrecorded := publishLocked_recorded artifactDigest
      { record with resultDigest := some artifactDigest } hstage' rfl h
    have hpublished := publishLocked_published artifactDigest
      { record with resultDigest := some artifactDigest } hstage' h
    rw [wp, hpublish] at hrecorded hpublished
    refine ⟨?_, hrecorded, fun u' hu' => ?_⟩
    · obtain ⟨hr, -⟩ | hp := hpublished
      · exact ⟨l, hr, List.prefix_rfl, Nat.le_succ _⟩
      · exact ⟨_, hp.refines, ⟨_, rfl⟩, by simp⟩
    · refine bind_eq_ok.mpr ⟨(), u', ?_, bind_eq_ok.mpr ⟨(), u', ?_, ?_⟩⟩
      · rw [rejectIf, if_neg hchecked]
        rfl
      · rw [hv]
        rfl
      · exact publishLocked_again sha256 (hrecorded.reopened hu')

end Ledger

end Journal

section Ledger
variable {sha256 : Hasher} {config : JournalConfig} {l : Ledger} {j : WitnessJournal}

theorem Represents.entry_of_get {journalId : Id} {s : Store} {k : UInt64} {bytes : Bytes}
    (h : Represents sha256 journalId s l) (hget : s.records.get k = some bytes) :
    ∃ r ∈ l.entries, r.sequence = k ∧ bytes = recordLayout journalId r := by
  obtain ⟨blocks, active, hent, hscan⟩ := h.scan
  have hmem := (Tree.get_eq_some_iff _).mp hget
  rw [hscan.records] at hmem
  obtain ⟨r, hr, heq⟩ := List.mem_map.mp hmem
  obtain ⟨rfl, rfl⟩ := Prod.mk.inj heq
  exact ⟨r, hent ▸ List.mem_append_right _ hr, rfl, rfl⟩

theorem Ledger.WellFormed.eq_of_sequence {journalId : Id} {r r' : WitnessRecord}
    (h : l.WellFormed sha256 journalId) (hr : r ∈ l.entries) (hr' : r' ∈ l.entries)
    (hs : r.sequence = r'.sequence) : r = r' := by
  obtain ⟨i, hi⟩ := List.getElem?_of_mem hr
  obtain ⟨k, hk⟩ := List.getElem?_of_mem hr'
  have hnum := h.numbered i r hi
  have hnum' := h.numbered k r' hk
  rw [hs] at hnum
  obtain rfl : i = k := by omega
  exact Option.some.inj (hi.symm.trans hk)

theorem Refines.recorded_entry {artifactDigest : Digest} {record : WitnessRecord}
    (h : Refines sha256 config l j) (hr : Journal.Recorded artifactDigest record j) :
    ∃ r ∈ l.entries, r.eventId = record.eventId ∧ r.stage = .checkpointPublished ∧
      r.resultDigest = some artifactDigest := by
  obtain ⟨-, sequence, bytes, d, hevent, hbytes, hd, -, hstage, hdigest⟩ := hr
  obtain ⟨r, hmem, heq, hseq⟩ := (h.represents.events _ _).mp hevent
  obtain ⟨r', hmem', hseq', rfl⟩ := h.represents.entry_of_get hbytes
  obtain rfl := h.represents.wellFormed.eq_of_sequence hmem hmem' (hseq.trans hseq'.symm)
  rw [decodeRecord_recordLayout (h.represents.wellFormed.valid r hmem)] at hd
  obtain rfl := Except.ok.inj hd
  exact ⟨r, hmem, heq, hstage, hdigest⟩

end Ledger
end Ferrocrate.Witness

import Ferrocrate.Witness.Journal.Represents

/-! A journal handle refines a ledger. What an operation does around its own transaction
(faults, quota, sealing, reservations, the read mirror) never changes the ledger. -/
namespace Ferrocrate.Witness
open Lib Lib.Program Journal

/-- The database represents the ledger within its limit, and the handle's epoch is the
stored one. A disabled journal has no operations. -/
structure Refines (sha256 : Hasher) (config : JournalConfig) (l : Ledger)
    (j : WitnessJournal) : Prop where
  sameConfig : j.config = config
  represents : Represents sha256 config.journalId j.store l
  epoch : j.epoch = l.epoch
  room : j.store.bytes ≤ config.databaseLimit
  enabled : ∀ id, (l.operations id).isSome = true → config.mode = .required

namespace Refines
variable {sha256 : Hasher} {config : JournalConfig} {l : Ledger} {j : WitnessJournal}

theorem length_le (h : Refines sha256 config l j) : l.entries.length ≤ Ledger.capacity :=
  (h.represents.length_le_bytes.trans h.room).trans config.databaseLimit_le

theorem head_eq (h : Refines sha256 config l j) :
    j.head = (UInt64.ofNat l.entries.length, l.tip sha256 config.journalId) := by
  rw [WitnessJournal.head, h.represents.headSequence_eq, h.represents.headHash]

theorem of_handle (h : Refines sha256 config l j) (faults : Finset FaultPoint)
    (automationStopped stopMarker : Bool) (reserveFile : UInt64) (mirror : ReadMirror) :
    Refines sha256 config l ⟨j.config, j.store, j.epoch, faults, automationStopped, stopMarker,
      reserveFile, mirror⟩ :=
  ⟨h.sameConfig, h.represents, h.epoch, h.room, h.enabled⟩

theorem of_metadata (h : Refines sha256 config l j) {m : Meta}
    (hs : m.headSequence = j.store.metadata.headSequence)
    (hh : m.headHash = j.store.metadata.headHash) (he : m.epoch = j.store.metadata.epoch)
    (hc : m.currentSegment = j.store.metadata.currentSegment) :
    Refines sha256 config l { j with store := { j.store with metadata := m } } :=
  ⟨h.sameConfig, h.represents.of_metadata hs hh he hc, h.epoch, h.room, h.enabled⟩

theorem reopen {faults : Finset FaultPoint} {mirror : ReadMirror} {j' : WitnessJournal}
    (h : Refines sha256 config l j) (hopen : j.reopen faults mirror = .ok j') :
    Refines sha256 config l j' := by
  simp only [WitnessJournal.reopen, Except.ite_error_eq_ok] at hopen
  obtain ⟨-, -, -, -, -, hj'⟩ := hopen
  obtain rfl := Except.ok.inj hj'
  exact ⟨h.sameConfig, h.represents, h.represents.epoch, h.room, h.enabled⟩

end Refines

def Quiet {α : Type} (m : Journaled α) : Prop :=
  ∀ (sha256 : Hasher) (config : JournalConfig) (l : Ledger),
    Preserves (Refines sha256 config l) m

namespace Journal
variable {sha256 : Hasher} {config : JournalConfig} {l : Ledger}

theorem wp_takeFault (point : FaultPoint) (Q : Bool → WitnessJournal → Prop)
    (E : JournalError → WitnessJournal → Prop) (j : WitnessJournal) :
    wp (takeFault point) Q E j ↔
      Q (decide (point ∈ j.faults)) { j with faults := j.faults.erase point } := Iff.rfl

theorem wp_transaction (body : Store → Except JournalError Store)
    (Q : Unit → WitnessJournal → Prop) (E : JournalError → WitnessJournal → Prop)
    (j : WitnessJournal) :
    wp (transaction body) Q E j ↔
      (∀ s, body j.store = .ok s →
        (s.bytes ≤ j.config.databaseLimit → Q () { j with store := s }) ∧
        (j.config.databaseLimit < s.bytes → E .sqlite j)) ∧
      ∀ e, body j.store = .error e → E e j := by
  simp only [transaction, wp_bind, wp_get, wp_ofExcept, wp_rejectIf, wp_set, id, gt_iff_lt,
    not_lt]
  constructor
  · rintro ⟨hok, herr⟩
    exact ⟨fun s hs => ⟨(hok s hs).2, (hok s hs).1⟩, herr⟩
  · rintro ⟨hok, herr⟩
    exact ⟨fun s hs => ⟨(hok s hs).2, (hok s hs).1⟩, herr⟩

section Handle
variable {I : WitnessJournal → Prop}

theorem failAt_preserves (hI : ∀ j faults, I j → I { j with faults := faults })
    (point : FaultPoint) (e : JournalError) : Preserves I (failAt point e) := by
  intro j h
  simp only [failAt, wp_bind, wp_takeFault, wp_rejectIf]
  exact ⟨fun _ => hI _ _ h, fun _ => hI _ _ h⟩

theorem flush_preserves (hI : ∀ j faults, I j → I { j with faults := faults })
    (boundary : FlushBoundary) (id : OperationId) : Preserves I (flush boundary id) :=
  (failAt_preserves hI _ _).bind fun _ => (failAt_preserves hI _ _).bind fun _ =>
    failAt_preserves hI _ _

theorem appendFrames_preserves (hI : ∀ j mirror, I j → I { j with mirror := mirror })
    (count : Nat) (sequence : UInt64) : Preserves I (appendFrames count sequence) := by
  induction count generalizing sequence with
  | zero => exact preserves_pure ()
  | succ count ih =>
    have hrotate : ∀ last, Preserves I (rotateReadMirror last) := by
      intro last j h
      simp only [rotateReadMirror, wp_bind, wp_get, wp_rejectIf, wp_set]
      exact ⟨fun _ => h, fun _ => ⟨fun _ => h, fun _ => hI _ _ h⟩⟩
    intro j h
    simp only [appendFrames, wp_bind, wp_get, wp_okOr, wp_modify]
    refine ⟨fun bytes _ => ?_, fun _ => h⟩
    refine wp_mono (Preserves.runIf _ (hrotate _) j h) (fun _ j h => ?_) (fun _ _ h => h)
    exact ih _ _ (hI _ _ h)

theorem updateReadMirrorBestEffort_returns (hI : ∀ j mirror, I j → I { j with mirror := mirror })
    {j : WitnessJournal} (h : I j) :
    wp updateReadMirrorBestEffort (fun _ => I) (fun _ _ => False) j := by
  have happend : Preserves I appendReadMirror := by
    intro j h
    simp only [appendReadMirror, wp_bind, wp_get, wp_ite, wp_pure, wp_modify]
    refine ⟨fun _ => h, fun _ => ?_⟩
    exact wp_mono (appendFrames_preserves hI _ _ j h) (fun _ _ h => hI _ _ h) (fun _ _ h => h)
  simp only [updateReadMirrorBestEffort, wp_bind, wp_attempt]
  exact wp_mono (happend j h) (fun _ _ h => h) (fun _ _ h => hI _ _ h)

end Handle

theorem takeFault_quiet (point : FaultPoint) : Quiet (takeFault point) :=
  fun _ _ _ _ h => h.of_handle _ _ _ _ _

theorem failAt_quiet (point : FaultPoint) (e : JournalError) : Quiet (failAt point e) :=
  fun _ _ _ => failAt_preserves (fun _ _ h => h.of_handle _ _ _ _ _) point e

theorem modifyMeta_quiet {f : Meta → Meta} (h : ∀ m, (f m).headSequence = m.headSequence
    ∧ (f m).headHash = m.headHash ∧ (f m).epoch = m.epoch
    ∧ (f m).currentSegment = m.currentSegment) : Quiet (modifyMeta f) := by
  intro sha256 config l
  apply preserves_modify
  intro j hj
  obtain ⟨hs, hh, he, hc⟩ := h j.store.metadata
  exact hj.of_metadata hs hh he hc

theorem preflight_quiet (boundary : FlushBoundary) : Quiet (preflight boundary) := by
  intro sha256 config l j h
  simp only [preflight, wp_bind, wp_get, wp_rejectIf]
  refine ⟨fun _ => h, fun _ => ?_⟩
  refine wp_mono (failAt_quiet _ _ sha256 config l j h) (fun _ j h => ?_) (fun _ _ h => h)
  exact failAt_quiet _ _ sha256 config l j h

theorem wp_preflight_required {boundary : FlushBoundary} {j : WitnessJournal}
    (h : Refines sha256 config l j) :
    wp (preflight boundary) (fun _ j' => Refines sha256 config l j' ∧ config.mode = .required)
      (fun _ => Refines sha256 config l) j := by
  by_cases hm : config.mode = .disabled
  · simp only [preflight, wp_bind, wp_get, wp_rejectIf, h.sameConfig]
    exact ⟨fun _ => h, fun hc => absurd hm hc⟩
  · have hreq : config.mode = .required := by
      cases hc : config.mode with
      | disabled => exact absurd hc hm
      | required => rfl
    exact wp_mono (preflight_quiet boundary sha256 config l j h) (fun _ _ h => ⟨h, hreq⟩)
      (fun _ _ h => h)

theorem flush_quiet (boundary : FlushBoundary) (id : OperationId) : Quiet (flush boundary id) :=
  fun _ _ _ => flush_preserves (fun _ _ h => h.of_handle _ _ _ _ _) boundary id

theorem sealActiveSegment_quiet (force : Bool) : Quiet (sealActiveSegment force) := by
  intro sha256 config l j h
  refine wp_bind_of_preserves (failAt_quiet _ _ sha256 config l) h (fun _ _ h => h) ?_
  intro _ j h
  simp only [wp_bind, wp_get, wp_ite, wp_pure, wp_okOr, wp_transaction]
  refine ⟨fun _ => h, fun hne => ⟨fun next hnext => ⟨fun s hs => ⟨fun hroom => ?_, fun _ => h⟩,
    fun _ _ => h⟩, fun _ => h⟩⟩
  have hentries : j.store.records.entries ≠ [] := fun he => hne (.inl he)
  split at hs
  · cases hs
  · split at hs
    · cases hs
    · cases hs
      exact ⟨h.sameConfig, h.represents.sealed hentries (toNat_checkedAdd hnext), h.epoch,
        by rw [← h.sameConfig]; exact hroom, h.enabled⟩

theorem ensureUserCapacity_quiet (additional : Nat) : Quiet (ensureUserCapacity additional) := by
  intro sha256 config l j h
  simp only [ensureUserCapacity, wp_bind, wp_get, wp_rejectIf, wp_okOr]
  refine ⟨fun _ => h, fun _ => ⟨fun limit _ => ⟨fun _ => h, fun _ => ?_⟩, fun _ => h⟩⟩
  exact Preserves.runIf _ ((sealActiveSegment_quiet true sha256 config l).failingWith _) j h

theorem postAckRotation_quiet : Quiet postAckRotation := by
  intro sha256 config l
  refine (sealActiveSegment_quiet false sha256 config l).attempt.bind ?_
  intro r
  cases r with
  | error e => exact modifyMeta_quiet (by simp) sha256 config l
  | ok u => exact modifyMeta_quiet (by simp) sha256 config l

theorem stopAutomation_quiet : Quiet stopAutomation := by
  intro sha256 config l
  apply preserves_modify
  intro j h
  exact ⟨h.sameConfig, h.represents.of_metadata rfl rfl rfl rfl, h.epoch, h.room, h.enabled⟩

theorem stopAt_quiet (point : FaultPoint) : Quiet (stopAt point) := by
  intro sha256 config l
  refine (takeFault_quiet point sha256 config l).bind fun hit => Preserves.runIf _ ?_
  exact (stopAutomation_quiet sha256 config l).bind fun _ => preserves_throw _

theorem beginCleanupReservation_quiet (id : OperationId) (bytes : Nat) :
    Quiet (beginCleanupReservation id bytes) := by
  intro sha256 config l
  refine (stopAt_quiet _ sha256 config l).bind fun _ => ?_
  refine (stopAt_quiet _ sha256 config l).bind fun _ => ?_
  intro j h
  simp only [wp_bind, wp_get, wp_rejectIf]
  refine ⟨fun _ => h, fun _ => ?_⟩
  cases checkedSub j.store.metadata.reserve (UInt64.ofNat bytes) with
  | none =>
    exact ((stopAutomation_quiet sha256 config l).bind fun _ => preserves_throw _) j h
  | some next =>
    refine wp_bind_of_preserves (modifyMeta_quiet (by simp) sha256 config l) h (fun _ _ h => h) ?_
    intro _ j h
    exact ((stopAt_quiet _ sha256 config l).bind fun _ => (stopAt_quiet _ sha256 config l).bind
      fun _ => (stopAt_quiet _ sha256 config l).bind fun _ => preserves_pure _) j h

theorem finishCleanupReservation_quiet (remaining : UInt64) :
    Quiet (finishCleanupReservation remaining) := by
  intro sha256 config l
  refine (modifyMeta_quiet (by simp) sha256 config l).bind fun _ => ?_
  exact preserves_modify fun j h => h.of_handle _ _ _ _ _

theorem updateReadMirrorBestEffort_quiet : Quiet updateReadMirrorBestEffort :=
  fun _ _ _ _ h => wp_mono
    (updateReadMirrorBestEffort_returns (fun _ _ h => h.of_handle _ _ _ _ _) h)
    (fun _ _ h => h) (fun _ _ hf => hf.elim)

end Journal
end Ferrocrate.Witness

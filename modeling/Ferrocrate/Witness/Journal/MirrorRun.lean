import Ferrocrate.Witness.Journal.Mirror
import Ferrocrate.Witness.Journal.Quota

/-! The read mirror over runs of a journal. Appends bring the mirror up to the journal from the
active records; what is sealed before it is mirrored is out of their reach. -/
namespace Ferrocrate.Witness
open Lib Lib.Program Journal

def caughtUp (j : WitnessJournal) : Bool := j.mirror.sequence = j.head.1

def forcedSeal (j : WitnessJournal) (additional : Nat) : Bool :=
  usedBytes j.store.records ≠ 0
    ∧ saturatingAdd (usedBytes j.store.records) additional > j.config.segmentBytes.toNat

def unmirroredBytes (j : WitnessJournal) : Nat :=
  match Journal.records j with
  | .error _ => 0
  | .ok stored => ((stored.drop j.mirror.sequence.toNat).map fun bytes => bytes.length + 12).sum

def partsFit (j : WitnessJournal) (lengths : List Nat) : Bool :=
  j.config.mirrorSegmentLimit ≤ maxMirrorBytes
    ∨ j.mirror.active.length + unmirroredBytes j + (lengths.map (· + 12)).sum ≤ maxMirrorBytes

def appendMirrors (j : WitnessJournal) (lengths : List Nat) : Bool :=
  (caughtUp j ∨ (j.store.records.contains (j.mirror.sequence + 1)
      ∧ forcedSeal j lengths.sum = false))
    ∧ partsFit j lengths

def Operation.mirrors (op : Operation) (j : WitnessJournal) : Bool :=
  let length (record : WitnessRecord) := (recordLayout j.config.journalId record).length
  match op with
  | appendReceived _ _ _ record => appendMirrors j [length record]
  | appendDecision _ record => appendMirrors j [length record]
  | deny _ decision denied => appendMirrors j [length decision, length denied]
  | complete _ record => appendMirrors j [length record]
  | appendCheckpointPublication digest record =>
    if j.store.events.contains record.eventId then caughtUp j
    else appendMirrors j [length { record with resultDigest := some digest }]
  | recordOutcomeUnknown _ _ => true
  | completeRecovery _ _ => true
  | maintain => true
  | advanceEpoch _ => true
  | failOnce _ => true

def Operation.updatesMirror : Operation → Bool
  | appendReceived _ _ _ _ => true
  | appendDecision _ _ => true
  | deny _ _ _ => true
  | complete _ _ => true
  | appendCheckpointPublication _ _ => true
  | recordOutcomeUnknown _ _ => false
  | completeRecovery _ _ => false
  | maintain => false
  | advanceEpoch _ => false
  | failOnce _ => false

inductive JournalStep where
  | call (op : Operation)
  | reopen

namespace JournalStep
variable (sha256 : Hasher)

def apply (step : JournalStep) (j : WitnessJournal) : WitnessJournal :=
  match step with
  | call op => op.apply sha256 j
  | reopen =>
    match j.openExisting sha256 with
    | .error _ => j
    | .ok j' => j'

def faultless : JournalStep → Bool
  | call (.failOnce _) => false
  | call _ => true
  | reopen => true

def mirrors (step : JournalStep) (j : WitnessJournal) : Bool :=
  match step with
  | call op =>
    match (op.call sha256).result j with
    | .error _ => true
    | .ok _ => op.mirrors j
  | reopen =>
    match j.reopen ∅ { j.mirror with sequence := 0 } with
    | .error _ => true
    | .ok _ =>
      if j.mirror.segments = [] then
        headerBytes + unmirroredBytes { j with mirror := { j.mirror with sequence := 0 } }
          ≤ maxMirrorBytes
      else (caughtUp j ∨ j.store.records.contains (j.mirror.sequence + 1)) ∧ partsFit j []

end JournalStep

def runSteps (sha256 : Hasher) (steps : List JournalStep) (j : WitnessJournal) :
    WitnessJournal :=
  steps.foldl (fun j step => step.apply sha256 j) j

def mirrorsRun (sha256 : Hasher) : List JournalStep → WitnessJournal → Bool
  | [], _ => true
  | step :: steps, j => step.mirrors sha256 j && mirrorsRun sha256 steps (step.apply sha256 j)

/-- There is no staleness marker, and the reader yields exactly the records of the journal, in
whatever order the directory lists the segments. -/
def ReaderYieldsRecords (sha256 : Hasher) (j : WitnessJournal) : Prop :=
  j.mirror.stale = false ∧ ∃ stored, Journal.records j = .ok stored ∧
    ∀ listing, listing.Perm j.mirror.segments →
      WitnessReader.read sha256 j.config.journalId { j.mirror with segments := listing }
        = .ok stored

/-! What leaves the mirror alone. -/

def Idle (m : ReadMirror) (j : WitnessJournal) : Prop := j.mirror = m ∧ j.faults = ∅

namespace Journal
variable {sha256 : Hasher} {m : ReadMirror} {j : WitnessJournal}

theorem takeFault_idle (point : FaultPoint) : Preserves (Idle m) (takeFault point) := by
  rintro j ⟨hm, hf⟩
  exact (wp_takeFault_calm hf _ _ _).mpr ⟨hm, hf⟩

theorem failAt_idle (point : FaultPoint) (e : JournalError) : Preserves (Idle m) (failAt point e) :=
  (takeFault_idle point).bind fun _ => preserves_rejectIf _ _

theorem preflight_idle (boundary : FlushBoundary) : Preserves (Idle m) (preflight boundary) :=
  preserves_get.bind fun _ => (preserves_rejectIf _ _).bind fun _ =>
    (failAt_idle _ _).bind fun _ => failAt_idle _ _

theorem flush_idle (boundary : FlushBoundary) (id : OperationId) :
    Preserves (Idle m) (flush boundary id) :=
  (failAt_idle _ _).bind fun _ => (failAt_idle _ _).bind fun _ => failAt_idle _ _

theorem transaction_idle (body : Store → Except JournalError Store) :
    Preserves (Idle m) (transaction body) := by
  intro j h
  rw [wp_transaction]
  exact ⟨fun _ _ => ⟨fun _ => h, fun _ => h⟩, fun _ _ => h⟩

theorem modifyMeta_idle (f : Meta → Meta) : Preserves (Idle m) (modifyMeta f) :=
  preserves_modify fun _ h => h

theorem sealActiveSegment_idle (force : Bool) : Preserves (Idle m) (sealActiveSegment force) := by
  intro j h
  refine wp_bind_of_preserves (failAt_idle _ _) h (fun _ _ h => h) fun _ j h => ?_
  simp only [wp_bind, wp_get, wp_ite, wp_pure, wp_okOr]
  exact ⟨fun _ => h, fun _ => ⟨fun _ _ => transaction_idle _ j h, fun _ => h⟩⟩

theorem ensureUserCapacity_idle (additional : Nat) :
    Preserves (Idle m) (ensureUserCapacity additional) :=
  preserves_get.bind fun _ => (preserves_rejectIf _ _).bind fun _ => (preserves_okOr _ _).bind
    fun _ => (preserves_rejectIf _ _).bind fun _ =>
      ((sealActiveSegment_idle true).failingWith _).runIf _

theorem postAckRotation_idle (h : Idle m j) :
    wp postAckRotation (fun _ => Idle m) (fun _ _ => False) j := by
  simp only [postAckRotation, wp_bind, wp_attempt, modifyMeta, wp_modify]
  exact wp_mono (sealActiveSegment_idle false j h) (fun _ _ h => h) (fun _ _ h => h)

theorem stopAutomation_idle : Preserves (Idle m) stopAutomation := preserves_modify fun _ h => h

theorem stopAt_idle (point : FaultPoint) : Preserves (Idle m) (stopAt point) :=
  (takeFault_idle point).bind fun _ =>
    (stopAutomation_idle.bind fun _ => preserves_throw _).runIf _

theorem beginCleanupReservation_idle (id : OperationId) (bytes : Nat) :
    Preserves (Idle m) (beginCleanupReservation id bytes) := by
  refine (stopAt_idle _).bind fun _ => (stopAt_idle _).bind fun _ => preserves_get.bind fun j =>
    (preserves_rejectIf _ _).bind fun _ => ?_
  split
  · exact stopAutomation_idle.bind fun _ => preserves_throw _
  · exact (modifyMeta_idle _).bind fun _ => (stopAt_idle _).bind fun _ => (stopAt_idle _).bind
      fun _ => (stopAt_idle _).bind fun _ => preserves_pure _

theorem finishCleanupReservation_idle (remaining : UInt64) :
    Preserves (Idle m) (finishCleanupReservation remaining) :=
  (modifyMeta_idle _).bind fun _ => preserves_modify fun _ h => h

theorem recordOutcomeUnknownAt_idle (epoch : UInt64) (id : OperationId) (record : WitnessRecord) :
    Preserves (Idle m) (recordOutcomeUnknownAt sha256 epoch id record) := by
  intro j h
  simp only [recordOutcomeUnknownAt, wp_bind, wp_rejectIf, wp_get, wp_okOr, wp_ofExcept, wp_ite,
    wp_throw]
  refine ⟨fun _ => h, fun _ => ?_⟩
  refine wp_mono (preflight_idle _ j h) (fun _ j h => ?_) (fun _ _ h => h)
  refine ⟨fun _ _ => ⟨fun _ _ => ⟨fun _ => ?_, fun _ => ⟨fun _ => h, fun _ => ⟨fun bytes _ => ?_,
    fun _ _ => h⟩⟩⟩, fun _ => h⟩, fun _ => h⟩
  · exact flush_idle _ _ j h
  refine wp_mono (ensureUserCapacity_idle _ j h) (fun _ j h => ?_) (fun _ _ h => h)
  refine wp_mono (transaction_idle _ j h) (fun _ j h => ?_) (fun _ _ h => h)
  refine wp_mono (flush_idle _ _ j h) (fun _ j h => ?_) (fun _ _ h => h)
  exact wp_mono (postAckRotation_idle h) (fun _ _ h => h) (fun _ _ hf => hf.elim)

theorem completeRecoveryAt_idle (epoch : UInt64) (id : OperationId) (record : WitnessRecord) :
    Preserves (Idle m) (completeRecoveryAt sha256 epoch id record) := by
  intro j h
  simp only [completeRecoveryAt, wp_bind, wp_rejectIf, wp_get, wp_okOr, wp_ofExcept, wp_attempt,
    wp_throw]
  refine ⟨fun _ => h, fun _ => ⟨fun _ => h, fun _ => ⟨fun _ _ => ⟨fun _ _ => ⟨fun _ => h, fun _ =>
    ⟨fun bytes _ => ⟨fun _ => h, fun _ => ?_⟩, fun _ _ => h⟩⟩, fun _ => h⟩, fun _ => h⟩⟩⟩
  refine wp_mono (beginCleanupReservation_idle _ _ j h) (fun _ j h => ?_) (fun _ _ h => h)
  refine wp_mono (stopAt_idle _ j h) (fun _ j h => ?_) (fun _ _ h => h)
  refine wp_mono (stopAt_idle _ j h) (fun _ j h => ?_) (fun _ _ h => h)
  refine wp_mono (transaction_idle _ j h) (fun _ j h => ?_) (fun _ _ h => h)
  refine wp_mono (flush_idle _ _ j h) (fun _ j h => ?_) (fun _ j h => ?_)
  · refine wp_mono (finishCleanupReservation_idle _ j h) (fun _ j h => ?_) (fun _ _ h => h)
    exact wp_mono (postAckRotation_idle h) (fun _ _ h => h) (fun _ _ hf => hf.elim)
  · exact stopAutomation_idle j h

theorem advanceEpoch_idle (expected : UInt64) : Preserves (Idle m) (advanceEpoch expected) := by
  intro j h
  simp only [advanceEpoch, wp_bind, wp_get, wp_rejectIf, wp_okOr, modifyMeta, wp_modify, wp_pure]
  exact ⟨fun _ => h, fun _ => ⟨fun _ _ => h, fun _ => h⟩⟩

end Journal

/-! What brings the mirror up to the journal. -/

section Appends
variable {sha256 : Hasher} {config : JournalConfig} {l : Ledger} {j : WitnessJournal}

structure Tracked (sha256 : Hasher) (config : JournalConfig) (l : Ledger)
    (j : WitnessJournal) : Prop where
  refines : Refines sha256 config l j
  faultless : j.faults = ∅
  mirrored : Mirrored config.journalId l.entries j.mirror

def Synced (sha256 : Hasher) (config : JournalConfig) (j : WitnessJournal) : Prop :=
  ∃ l, Tracked sha256 config l j ∧ j.mirror.sequence.toNat = l.entries.length

structure Ready (config : JournalConfig) (l : Ledger) (j : WitnessJournal) : Prop where
  mirrored : Mirrored config.journalId l.entries j.mirror
  active : ∀ x ∈ l.entries.drop j.mirror.sequence.toNat,
    j.store.records.get x.sequence = some (recordLayout config.journalId x)
  size : config.mirrorSegmentLimit ≤ maxMirrorBytes ∨ j.mirror.active.length
    + footprint config.journalId (l.entries.drop j.mirror.sequence.toNat) ≤ maxMirrorBytes

theorem Tracked.idle (h : Tracked sha256 config l j) : Idle j.mirror j := ⟨rfl, h.faultless⟩

variable {boundary : FlushBoundary}

theorem wp_preflight_still {j : WitnessJournal} (hf : j.faults = ∅) :
    wp (preflight boundary) (fun _ j' => j = j' ∧ j.config.mode = .required) (fun _ j' => j = j')
      j := by
  simp only [preflight, wp_bind, wp_get, wp_rejectIf, wp_failAt_calm hf]
  refine ⟨fun _ => trivial, fun hmode => ⟨trivial, ?_⟩⟩
  cases hm : j.config.mode with
  | disabled => exact absurd hm hmode
  | required => rfl

theorem updateReadMirrorBestEffort_synced {P : Prop} (hr : Refines sha256 config l j)
    (hf : j.faults = ∅) (hready : P → Ready config l j) :
    wp updateReadMirrorBestEffort (fun _ j' => Refines sha256 config l j' ∧ j'.faults = ∅ ∧
        (P → Synced sha256 config j')) (fun _ _ => False) j := by
  by_cases hp : P
  · have h := hready hp
    simp only [updateReadMirrorBestEffort, wp_bind, wp_attempt]
    refine wp_mono (wp_appendReadMirror hr h.mirrored h.active h.size) ?_ (fun _ _ hf => hf.elim)
    rintro _ j' ⟨m, rfl, hm, hlen⟩
    have hr' := hr.of_handle j.faults j.automationStopped j.stopMarker j.reserveFile m
    exact ⟨hr', hf, fun _ => ⟨l, ⟨hr', hf, hm⟩, hlen⟩⟩
  · have hI : ∀ (j : WitnessJournal) (mirror : ReadMirror), Refines sha256 config l j ∧ j.faults = ∅ →
        Refines sha256 config l { j with mirror := mirror } ∧ j.faults = ∅ :=
      fun _ _ h => ⟨h.1.of_handle _ _ _ _ _, h.2⟩
    exact wp_mono (updateReadMirrorBestEffort_returns hI ⟨hr, hf⟩)
      (fun _ _ h => ⟨h.1, h.2, fun hp' => absurd hp' hp⟩) (fun _ _ hf => hf)

theorem Synced.rotate (hs : Synced sha256 config j) :
    wp postAckRotation (fun _ => Synced sha256 config) (fun _ _ => False) j := by
  obtain ⟨l, h, hlen⟩ := hs
  refine wp_mono (wp_and (postAckRotation_idle h.idle)
    (postAckRotation_quiet sha256 config l j h.refines)) ?_ (fun _ _ hf => hf.1.elim)
  rintro _ j' ⟨⟨hmirror, hfaults⟩, hr⟩
  refine ⟨l, ⟨hr, hfaults, ?_⟩, ?_⟩
  · rw [hmirror]
    exact h.mirrored
  · rw [hmirror]
    exact hlen

theorem acknowledge_synced {P : Prop} {E : JournalError → WitnessJournal → Prop} {id : OperationId} (hr : Refines sha256 config l j)
    (hf : j.faults = ∅) (hready : P → Ready config l j) :
    wp (flush boundary id) (fun _ s => wp updateReadMirrorBestEffort
      (fun _ s => wp postAckRotation (fun _ j' => P → Synced sha256 config j') E s) E s) E j := by
  rw [wp_flush_calm hf]
  refine wp_mono (updateReadMirrorBestEffort_synced hr hf hready) ?_ (fun _ _ hf => hf.elim)
  rintro _ j' ⟨hr', hf', hsynced⟩
  by_cases hp : P
  · exact wp_mono (hsynced hp).rotate (fun _ _ h _ => h) (fun _ _ hf => hf.elim)
  · exact wp_mono (postAckRotation_idle ⟨rfl, hf'⟩) (fun _ _ _ hp' => absurd hp' hp)
      (fun _ _ hf => hf.elim)

theorem ensureUserCapacity_tracked (additional : Nat) (h : Tracked sha256 config l j) :
    wp (ensureUserCapacity additional) (fun _ j' => Tracked sha256 config l j' ∧
        j'.mirror = j.mirror ∧
        (forcedSeal j additional = false → j'.store.records = j.store.records))
      (fun _ => Idle j.mirror) j := by
  have hrecords : wp (ensureUserCapacity additional)
      (fun _ j' => forcedSeal j additional = false → j'.store.records = j.store.records)
      (fun _ _ => True) j := by
    simp only [ensureUserCapacity, wp_bind, wp_get, wp_rejectIf, wp_okOr, wp_runIf]
    refine ⟨fun _ => trivial, fun _ => ⟨fun _ _ => ⟨fun _ => trivial, fun _ => ⟨fun hforced => ?_,
      fun _ _ => trivial⟩⟩, fun _ => trivial⟩⟩
    rw [wp_failingWith]
    refine wp_mono (wp_const (P := forcedSeal j additional = true) ?_) ?_ (fun _ _ h => h)
    · rw [forcedSeal, decide_eq_true_eq]
      exact hforced
    · intro _ _ hseal hnot
      rw [hseal] at hnot
      cases hnot
  refine wp_mono (wp_and (wp_and (ensureUserCapacity_idle additional j h.idle)
    (ensureUserCapacity_quiet additional sha256 config l j h.refines)) hrecords) ?_
    (fun _ _ h => h.1.1)
  rintro _ j' ⟨⟨⟨hmirror, hfaults⟩, hr⟩, hsame⟩
  exact ⟨⟨hr, hfaults, hmirror.symm ▸ h.mirrored⟩, hmirror, hsame⟩

theorem unmirroredBytes_eq (hr : Refines sha256 config l j) :
    unmirroredBytes j = footprint config.journalId (l.entries.drop j.mirror.sequence.toNat) := by
  rw [unmirroredBytes, hr.records_eq]
  simp only [footprint, List.map_drop, List.map_map]
  rfl

theorem Tracked.ready {l' : Ledger} {j₂ : WitnessJournal} {new : List WitnessRecord}
    {lengths : List Nat} (records₁ : Tree UInt64 Bytes) (h : Tracked sha256 config l j)
    (hrecords : forcedSeal j lengths.sum = false → records₁ = j.store.records)
    (hr₂ : Refines sha256 config l' j₂) (hmirror : j₂.mirror = j.mirror)
    (hent : l'.entries = l.entries ++ new) (hne : new ≠ [])
    (hlengths : lengths = new.map fun x => (recordLayout config.journalId x).length)
    (hkept : ∀ k, records₁.contains k = true → j₂.store.records.contains k = true)
    (hnew : ∀ x ∈ new, j₂.store.records.contains x.sequence = true)
    (hcond : appendMirrors j lengths = true) : Ready config l' j₂ := by
  simp only [appendMirrors, Bool.decide_and, Bool.and_eq_true, decide_eq_true_eq] at hcond
  obtain ⟨hreach, hfit⟩ := hcond
  have hbound := h.mirrored.bound
  have hdrop : l'.entries.drop j.mirror.sequence.toNat
      = l.entries.drop j.mirror.sequence.toNat ++ new := by
    rw [hent, List.drop_append_of_le_length hbound]
  -- the first record the mirror lacks is active
  have hfirst : ∀ x, l'.entries[j.mirror.sequence.toNat]? = some x →
      j₂.store.records.contains x.sequence = true := by
    intro x hx
    have hnum := hr₂.numbered _ x hx
    rcases hreach with hcaught | ⟨hcontains, hunforced⟩
    · simp only [caughtUp, decide_eq_true_eq] at hcaught
      have hlen : j.mirror.sequence.toNat = l.entries.length := by
        rw [hcaught]
        exact h.refines.represents.headSequence
      refine hnew x ?_
      rw [hent, List.getElem?_append_right (by omega)] at hx
      exact List.mem_of_getElem? hx
    · refine hkept _ ?_
      have hkey : x.sequence = j.mirror.sequence + 1 := by
        have hl := h.refines.length_le
        have hc : Ledger.capacity = 2 ^ 48 := rfl
        refine UInt64.toNat_inj.mp ?_
        rw [hnum, UInt64.toNat_add]
        simp only [UInt64.toNat_one]
        omega
      rw [hkey, hrecords hunforced]
      exact hcontains
  refine ⟨hmirror.symm ▸ h.mirrored.of_prefix ⟨new, hent.symm⟩, ?_, ?_⟩
  · rw [hmirror]
    have hlt : j.mirror.sequence.toNat < l'.entries.length := by
      have hpos := List.length_pos_iff.mpr hne
      rw [hent, List.length_append]
      omega
    exact hr₂.get_of_contains (List.getElem?_eq_getElem hlt)
      (hfirst _ (List.getElem?_eq_getElem hlt))
  · rw [hmirror, hdrop, footprint_append]
    simp only [partsFit, decide_eq_true_eq, unmirroredBytes_eq h.refines, h.refines.sameConfig,
      hlengths, List.map_map] at hfit
    simp only [footprint, Function.comp_def] at hfit ⊢
    rwa [Nat.add_assoc] at hfit

theorem Tracked.ready_one {l' : Ledger} {j₁ : WitnessJournal} {s : Store} {x : WitnessRecord}
    (h : Tracked sha256 config l j) (hmirror : j₁.mirror = j.mirror)
    (hrecords : forcedSeal j (recordLayout config.journalId x).length = false →
      j₁.store.records = j.store.records)
    (hr₂ : Refines sha256 config l' { j₁ with store := s }) (hent : l'.entries = l.entries ++ [x])
    (hs : s.records = j₁.store.records.put x.sequence (recordLayout config.journalId x))
    (hcond : appendMirrors j [(recordLayout config.journalId x).length] = true) :
    Ready config l' { j₁ with store := s } := by
  refine h.ready j₁.store.records ?_ hr₂ hmirror hent (by simp) (by simp) ?_ ?_ hcond
  · rw [List.sum_singleton]
    exact hrecords
  · intro k hk
    show s.records.contains k = true
    rw [hs, Tree.contains, Tree.get_put]
    split
    · rfl
    · exact hk
  · intro y hy
    rw [List.mem_singleton.mp hy]
    show s.records.contains x.sequence = true
    rw [hs, Tree.contains, Tree.get_put_self]
    rfl

theorem appendReceivedAt_synced (epoch : UInt64) (id : OperationId) (generation : UInt64)
    (recipe : RecoveryRecipe) (record : WitnessRecord) (h : Tracked sha256 config l j) :
    wp (appendReceivedAt sha256 epoch id generation recipe record)
      (fun _ j' => appendMirrors j [(recordLayout config.journalId record).length] = true →
        Synced sha256 config j') (fun _ => Idle j.mirror) j := by
  have hr := h.refines
  simp only [appendReceivedAt, wp_bind, wp_rejectIf, wp_get, wp_ofExcept, wp_transaction,
    Except.ite_error_eq_ok, ne_eq, not_or, not_not]
  refine ⟨fun _ => h.idle, fun _ => ⟨fun _ => h.idle, fun _ => ?_⟩⟩
  refine wp_mono (wp_preflight_still h.faultless) ?_ (fun _ _ hj => hj ▸ h.idle)
  rintro _ _ ⟨rfl, hmode⟩
  refine ⟨fun _ => h.idle, fun _ => ?_⟩
  rw [hr.stamp_eq epoch record, hr.next_eq epoch record, hr.sameConfig]
  refine ⟨fun bytes hbytes => ?_, fun _ _ => h.idle⟩
  obtain ⟨hvalid, -, rfl⟩ := (encodeRecord_ok_iff _ _ _).mp hbytes
  refine wp_mono (ensureUserCapacity_tracked _ h) ?_ (fun _ _ h => h)
  rintro _ j₁ ⟨h₁, hmirror, hrecords⟩
  have hidle : Idle j.mirror j₁ := ⟨hmirror, h₁.faultless⟩
  refine ⟨?_, fun _ _ => hidle⟩
  rintro s ⟨-, -, hfresh, hs⟩
  refine ⟨fun hroom => ?_, fun _ => hidle⟩
  have hr₁ := h₁.refines
  rw [hr.sameConfig] at hmode
  have hcommit := hr₁.commit (Except.ok.inj hs) hroom (hr₁.fresh hfresh) hvalid rfl rfl rfl rfl
    (hr₁.put_operation id _) (Tree.get_put_update hr₁.represents.pending id (generation, recipe))
    (fun _ _ => hmode)
  refine acknowledge_synced hcommit h₁.faultless fun hcond => ?_
  rw [← length_restamped config.journalId record epoch _ _] at hcond
  exact h.ready_one hmirror hrecords hcommit rfl (by rw [← Except.ok.inj hs]) hcond

theorem contains_put_put (t : Tree UInt64 Bytes) (k₁ k₂ : UInt64) (v₁ v₂ : Bytes) (k : UInt64) :
    ((t.put k₁ v₁).put k₂ v₂).contains k = true ↔ k = k₂ ∨ k = k₁ ∨ t.contains k = true := by
  simp only [Tree.contains, Tree.get_put, BlobKey.rank_inj]
  by_cases h₂ : k₂ = k
  · simp [h₂]
  · by_cases h₁ : k₁ = k
    · simp [h₁, h₂]
    · simp [h₁, h₂, Ne.symm h₁, Ne.symm h₂]

theorem appendDecisionAt_synced (epoch : UInt64) (id : OperationId) (record : WitnessRecord)
    (h : Tracked sha256 config l j) :
    wp (appendDecisionAt sha256 epoch id record)
      (fun _ j' => appendMirrors j [(recordLayout config.journalId record).length] = true →
        Synced sha256 config j') (fun _ => Idle j.mirror) j := by
  have hr := h.refines
  simp only [appendDecisionAt, appendDecisionRecord, wp_bind, wp_rejectIf, wp_get, wp_okOr,
    wp_ofExcept, wp_transaction, wp_pure, Except.ite_error_eq_ok, ne_eq, not_not]
  refine ⟨fun _ => h.idle, fun _ => ?_⟩
  refine wp_mono (wp_preflight_still h.faultless) ?_ (fun _ _ hj => hj ▸ h.idle)
  rintro _ _ ⟨rfl, -⟩
  refine ⟨fun _ _ => ⟨fun _ _ => ⟨fun stateBytes hget => ⟨fun state hstate => ?_,
    fun _ => h.idle⟩, fun _ => h.idle⟩, fun _ => h.idle⟩, fun _ => h.idle⟩
  have hoperation := hr.operation_eq hget hstate
  refine ⟨fun _ => h.idle, fun _ => ⟨fun _ => h.idle, fun _ => ⟨fun _ => h.idle, fun _ =>
    ⟨fun _ _ => ?_, fun _ => h.idle⟩⟩⟩⟩
  rw [hr.stamp_eq epoch record, hr.next_eq epoch record, hr.sameConfig]
  refine ⟨fun bytes hbytes => ?_, fun _ _ => h.idle⟩
  obtain ⟨hvalid, -, rfl⟩ := (encodeRecord_ok_iff _ _ _).mp hbytes
  refine wp_mono (ensureUserCapacity_tracked _ h) ?_ (fun _ _ h => h)
  rintro _ j₁ ⟨h₁, hmirror, hrecords⟩
  have hidle : Idle j.mirror j₁ := ⟨hmirror, h₁.faultless⟩
  refine ⟨fun _ _ => ⟨?_, fun _ _ => hidle⟩, fun _ => hidle⟩
  rintro s ⟨-, hfresh, hs⟩
  refine ⟨fun hroom => ?_, fun _ => hidle⟩
  have hr₁ := h₁.refines
  have hcommit := hr₁.commit (Except.ok.inj hs) hroom (hr₁.fresh hfresh) hvalid rfl rfl rfl rfl
    (hr₁.put_operation id _) hr₁.represents.pending (fun _ _ => hr₁.required hoperation)
  refine acknowledge_synced hcommit h₁.faultless fun hcond => ?_
  rw [← length_restamped config.journalId record epoch _ _] at hcond
  exact h.ready_one hmirror hrecords hcommit rfl (by rw [← Except.ok.inj hs]) hcond

theorem completeChecked_synced (id : OperationId) {state : OperationState} (record : WitnessRecord)
    (hoperation : l.operations id = some state) (h : Tracked sha256 config l j) :
    wp (completeChecked sha256 id state record false)
      (fun _ j' => appendMirrors j [(recordLayout config.journalId record).length] = true →
        Synced sha256 config j') (fun _ => Idle j.mirror) j := by
  have hr := h.refines
  simp only [completeChecked, wp_bind, wp_get, wp_ofExcept, wp_transaction, Except.ite_error_eq_ok,
    ne_eq, not_not, Bool.false_eq_true, if_false]
  simp only [hr.stamp_eq record.epoch record]
  simp only [hr.next_eq record.epoch record, hr.sameConfig]
  refine ⟨fun bytes hbytes => ?_, fun _ _ => h.idle⟩
  obtain ⟨hvalid, -, rfl⟩ := (encodeRecord_ok_iff _ _ _).mp hbytes
  refine wp_mono (ensureUserCapacity_tracked _ h) ?_ (fun _ _ h => h)
  rintro _ j₁ ⟨h₁, hmirror, hrecords⟩
  have hidle : Idle j.mirror j₁ := ⟨hmirror, h₁.faultless⟩
  refine ⟨?_, fun _ _ => hidle⟩
  rintro s ⟨-, -, hfresh, hs⟩
  refine ⟨fun hroom => ?_, fun _ => hidle⟩
  have hr₁ := h₁.refines
  obtain ⟨l', hent, hcommit⟩ : ∃ l' : Ledger, l'.entries = l.entries
      ++ [l.stamp sha256 config.journalId record.epoch record] ∧
      Refines sha256 config l' { j₁ with store := s } := by
    by_cases hu : record.outcome = .outcomeUnknown
    · simp only [hu, if_true] at hs
      exact ⟨_, rfl, hr₁.commit (Except.ok.inj hs) hroom (hr₁.fresh hfresh) hvalid rfl rfl rfl rfl
        (hr₁.put_operation id _) hr₁.represents.pending (fun _ _ => hr₁.required hoperation)⟩
    · simp only [hu, if_false] at hs
      exact ⟨_, rfl, hr₁.commit (Except.ok.inj hs) hroom (hr₁.fresh hfresh) hvalid rfl rfl rfl rfl
        (hr₁.put_operation id _) (hr₁.remove_pending id) (fun _ _ => hr₁.required hoperation)⟩
  refine acknowledge_synced hcommit h₁.faultless fun hcond => ?_
  rw [← length_restamped config.journalId record record.epoch _ _] at hcond
  exact h.ready_one hmirror hrecords hcommit hent (by rw [← Except.ok.inj hs]) hcond

theorem completeAt_synced (epoch : UInt64) (intent : DurableIntent) (record : WitnessRecord)
    (h : Tracked sha256 config l j) :
    wp (completeAt sha256 epoch intent record)
      (fun _ j' => appendMirrors j [(recordLayout config.journalId record).length] = true →
        Synced sha256 config j') (fun _ => Idle j.mirror) j := by
  simp only [completeAt, wp_bind, wp_rejectIf, wp_get, wp_okOr]
  refine ⟨fun _ => h.idle, fun _ => ?_⟩
  refine wp_mono (wp_preflight_still h.faultless) ?_ (fun _ _ hj => hj ▸ h.idle)
  rintro _ _ ⟨rfl, -⟩
  refine ⟨fun _ => h.idle, fun _ => ⟨fun stateBytes hget => ⟨fun state hstate => ⟨fun _ => h.idle,
    fun _ => ⟨fun _ => h.idle, fun _ => ?_⟩⟩, fun _ => h.idle⟩, fun _ => h.idle⟩⟩
  rw [wp_takeFault_calm h.faultless]
  simp only [Bool.false_eq_true, if_false]
  have hlength : (recordLayout config.journalId { record with epoch := epoch }).length
      = (recordLayout config.journalId record).length := by
    rw [length_recordLayout, length_recordLayout]
  rw [← hlength]
  exact completeChecked_synced _ _ (h.refines.operation_eq hget hstate) h

theorem denyAt_synced (epoch : UInt64) (id : OperationId) (decision denied : WitnessRecord)
    (h : Tracked sha256 config l j) :
    wp (denyAt sha256 epoch id decision denied)
      (fun _ j' => appendMirrors j [(recordLayout config.journalId decision).length,
        (recordLayout config.journalId denied).length] = true → Synced sha256 config j')
      (fun _ => Idle j.mirror) j := by
  have hr := h.refines
  simp only [denyAt, wp_bind, wp_rejectIf, wp_get, wp_okOr, wp_ofExcept, wp_transaction,
    Except.ite_error_eq_ok, ne_eq, not_or, not_not]
  refine ⟨fun _ => h.idle, fun _ => ?_⟩
  refine wp_mono (wp_preflight_still h.faultless) ?_ (fun _ _ hj => hj ▸ h.idle)
  rintro _ _ ⟨rfl, -⟩
  refine ⟨fun stateBytes hget => ⟨fun state hstate => ⟨fun _ => h.idle, fun _ => ?_⟩,
    fun _ => h.idle⟩, fun _ => h.idle⟩
  have hoperation := hr.operation_eq hget hstate
  simp only [hr.stamp_eq epoch decision, hr.sameConfig]
  refine ⟨fun bytes hbytes => ?_, fun _ _ => h.idle⟩
  obtain ⟨hvalid, -, rfl⟩ := (encodeRecord_ok_iff _ _ _).mp hbytes
  have hhash : hashRecord sha256 ⟨config.journalId,
      recordLayout config.journalId (l.stamp sha256 config.journalId epoch decision)⟩
      = recordHash sha256 config.journalId (l.stamp sha256 config.journalId epoch decision) := rfl
  simp only [hhash, hr.stamp_second epoch decision denied]
  simp only [hr.next_eq epoch decision, hr.next_second epoch decision denied]
  refine ⟨fun bytes' hbytes' => ?_, fun _ _ => h.idle⟩
  obtain ⟨hvalid', -, rfl⟩ := (encodeRecord_ok_iff _ _ _).mp hbytes'
  refine wp_mono (ensureUserCapacity_tracked _ h) ?_ (fun _ _ h => h)
  rintro _ j₁ ⟨h₁, hmirror, hrecords⟩
  have hidle : Idle j.mirror j₁ := ⟨hmirror, h₁.faultless⟩
  refine ⟨?_, fun _ _ => hidle⟩
  rintro s ⟨-, ⟨hfresh, hfresh', hdistinct⟩, hs⟩
  refine ⟨fun hroom => ?_, fun _ => hidle⟩
  have hr₁ := h₁.refines
  have hs := Except.ok.inj hs
  have hcommit := hr₁.commit_pair rfl rfl hs hroom (hr₁.fresh hfresh) (hr₁.fresh hfresh') hdistinct
    hvalid hvalid' (hr₁.put_operation id _) (hr₁.remove_pending id)
    (fun _ _ => hr₁.required hoperation)
  refine acknowledge_synced hcommit h₁.faultless fun hcond => ?_
  have hlength := length_restamped config.journalId decision epoch
    (UInt64.ofNat (l.entries.length + 1)) (l.tip sha256 config.journalId)
  have hlength' := length_restamped config.journalId denied epoch
    (UInt64.ofNat ((l.extend (l.stamp sha256 config.journalId epoch decision)).entries.length + 1))
    ((l.extend (l.stamp sha256 config.journalId epoch decision)).tip sha256 config.journalId)
  rw [← hlength, ← hlength'] at hcond
  have hcontains : ∀ k, s.records.contains k = true ↔
      k = ((l.extend (l.stamp sha256 config.journalId epoch decision)).stamp sha256 config.journalId
        epoch denied).sequence ∨
      k = (l.stamp sha256 config.journalId epoch decision).sequence ∨
      j₁.store.records.contains k = true := by
    intro k
    rw [← hs]
    exact contains_put_put _ _ _ _ _ _
  refine h.ready j₁.store.records ?_ hcommit hmirror (List.append_assoc _ _ _) (by simp) rfl
    (fun k hk => (hcontains k).mpr (.inr (.inr hk))) ?_ hcond
  · simp only [List.cons_append, List.nil_append, List.map_cons, List.map_nil, List.sum_cons,
      List.sum_nil, Nat.add_zero]
    exact hrecords
  · intro x hx
    rcases List.mem_cons.mp hx with rfl | hx
    · exact (hcontains _).mpr (.inr (.inl rfl))
    · rw [List.mem_singleton.mp hx]
      exact (hcontains _).mpr (.inl rfl)

theorem publishLocked_synced (artifactDigest : Digest) (record : WitnessRecord)
    (h : Tracked sha256 config l j) :
    wp (publishLocked sha256 artifactDigest record)
      (fun _ j' => (if j.store.events.contains record.eventId then caughtUp j
        else appendMirrors j [(recordLayout config.journalId record).length]) = true →
        Synced sha256 config j') (fun _ => Idle j.mirror) j := by
  have hr := h.refines
  simp only [publishLocked, wp_bind, wp_rejectIf, wp_get, ne_eq, not_not]
  refine ⟨fun _ => h.idle, fun hepoch => ?_⟩
  rw [hr.epoch] at hepoch
  cases hevent : j.store.events.get record.eventId with
  | some sequence =>
    simp only [wp_bind, wp_okOr, wp_ofExcept, wp_rejectIf, Tree.contains, hevent,
      Option.isSome_some, if_true]
    refine ⟨fun _ _ => ⟨fun _ _ => ⟨fun _ => h.idle, fun _ hcaught => ⟨l, h, ?_⟩⟩,
      fun _ _ => h.idle⟩, fun _ => h.idle⟩
    rw [caughtUp, decide_eq_true_eq] at hcaught
    rw [hcaught]
    exact hr.represents.headSequence
  | none =>
    have hunknown : j.store.events.contains record.eventId = false := by
      rw [Tree.contains, hevent]
      rfl
    simp only [wp_bind, wp_get, wp_okOr, wp_ofExcept, wp_transaction, Except.ite_error_eq_ok, not_not,
      hunknown, Bool.false_eq_true, if_false]
    refine wp_mono (wp_preflight_still h.faultless) ?_ (fun _ _ hj => hj ▸ h.idle)
    rintro _ _ ⟨rfl, -⟩
    rw [wp_failAt_calm h.faultless]
    refine ⟨fun next hnext => ?_, fun _ => h.idle⟩
    obtain rfl : next = j.head.1 + 1 := checkedAdd_eq hnext
    simp only [hr.stamp_eq record.epoch record]
    simp only [hr.next_eq record.epoch record, hr.sameConfig, hepoch]
    refine ⟨fun bytes hbytes => ?_, fun _ _ => h.idle⟩
    obtain ⟨hvalid, -, rfl⟩ := (encodeRecord_ok_iff _ _ _).mp hbytes
    refine wp_mono (ensureUserCapacity_tracked _ h) ?_ (fun _ _ h => h)
    rintro _ j₁ ⟨h₁, hmirror, hrecords⟩
    have hidle : Idle j.mirror j₁ := ⟨hmirror, h₁.faultless⟩
    refine ⟨?_, fun _ _ => hidle⟩
    rintro s ⟨-, hfresh, hs⟩
    refine ⟨fun hroom => ?_, fun _ => hidle⟩
    have hr₁ := h₁.refines
    have hs := Except.ok.inj hs
    have hcommit := hr₁.commit hs hroom (hr₁.fresh hfresh) hvalid rfl rfl rfl rfl
      hr₁.represents.operations hr₁.represents.pending hr₁.enabled
    have hfaults : ({ j₁ with store := s } : WitnessJournal).faults = ∅ := h₁.faultless
    rw [wp_flush_calm hfaults]
    refine wp_mono (updateReadMirrorBestEffort_synced hcommit h₁.faultless fun hcond => ?_)
      (fun _ _ h => h.2.2) (fun _ _ hf => hf.elim)
    rw [← length_restamped config.journalId record l.epoch _ _] at hcond
    exact h.ready_one hmirror hrecords hcommit rfl (by rw [← hs]) hcond

theorem Tracked.active_of_reach (h : Tracked sha256 config l j)
    (hreach : caughtUp j = true ∨ j.store.records.contains (j.mirror.sequence + 1) = true) :
    ∀ x ∈ l.entries.drop j.mirror.sequence.toNat,
      j.store.records.get x.sequence = some (recordLayout config.journalId x) := by
  have hhead : j.head.1.toNat = l.entries.length := h.refines.represents.headSequence
  have hl := h.refines.length_le
  have hc : Ledger.capacity = 2 ^ 48 := rfl
  by_cases hlt : j.mirror.sequence.toNat < l.entries.length
  · have hx := List.getElem?_eq_getElem hlt
    have hnum := h.refines.numbered _ _ hx
    refine h.refines.get_of_contains hx ?_
    have hkey : (l.entries[j.mirror.sequence.toNat]).sequence = j.mirror.sequence + 1 := by
      refine UInt64.toNat_inj.mp ?_
      rw [hnum, UInt64.toNat_add]
      simp only [UInt64.toNat_one]
      omega
    rcases hreach with hcaught | hcontains
    · rw [caughtUp, decide_eq_true_eq] at hcaught
      rw [hcaught] at hlt
      omega
    · rw [hkey]
      exact hcontains
  · rw [List.drop_eq_nil_of_le (Nat.le_of_not_lt hlt)]
    simp

end Appends

section Run
variable {sha256 : Hasher} {config : JournalConfig} {l : Ledger} {j : WitnessJournal}

theorem Operation.call_synced (op : Operation) (hop : op.updatesMirror = true)
    (h : Tracked sha256 config l j) :
    wp (op.call sha256) (fun _ j' => op.mirrors j = true → Synced sha256 config j')
      (fun _ => Idle j.mirror) j := by
  have hconfig := h.refines.sameConfig
  cases op with
  | appendReceived id generation recipe record =>
    simp only [Operation.call, Journal.appendReceived, wp_bind, wp_get, Operation.mirrors, hconfig]
    exact appendReceivedAt_synced _ _ _ _ _ h
  | appendDecision id record =>
    simp only [Operation.call, Journal.appendDecision, wp_bind, wp_get, wp_pure, Operation.mirrors,
      hconfig]
    exact appendDecisionAt_synced _ _ _ h
  | deny id decision denied =>
    simp only [Operation.call, Journal.deny, wp_bind, wp_get, Operation.mirrors, hconfig]
    exact denyAt_synced _ _ _ _ h
  | complete intent record =>
    simp only [Operation.call, Journal.complete, wp_bind, wp_get, Operation.mirrors, hconfig]
    exact completeAt_synced _ _ _ h
  | appendCheckpointPublication digest record =>
    simp only [Operation.call, Journal.appendCheckpointPublication, wp_bind, wp_rejectIf, wp_ofExcept,
      Operation.mirrors, hconfig]
    exact ⟨fun _ => h.idle, fun _ => ⟨fun _ _ => publishLocked_synced digest _ h,
      fun _ _ => h.idle⟩⟩
  | recordOutcomeUnknown => cases hop
  | completeRecovery => cases hop
  | maintain => cases hop
  | advanceEpoch => cases hop
  | failOnce => cases hop

theorem Operation.call_idle {m : ReadMirror} (op : Operation) (hop : op.updatesMirror = false)
    (hfault : (JournalStep.call op).faultless = true) : Preserves (Idle m) (op.call sha256) := by
  cases op with
  | recordOutcomeUnknown id record =>
    exact preserves_get.bind fun j => recordOutcomeUnknownAt_idle j.epoch id record
  | completeRecovery id record =>
    exact preserves_get.bind fun j => completeRecoveryAt_idle j.epoch id record
  | maintain => exact sealActiveSegment_idle true
  | advanceEpoch expected => exact (advanceEpoch_idle expected).bind fun _ => preserves_pure ()
  | failOnce => cases hfault
  | appendReceived => cases hop
  | appendDecision => cases hop
  | deny => cases hop
  | complete => cases hop
  | appendCheckpointPublication => cases hop

theorem Tracked.of_idle {op : Operation} (h : Tracked sha256 config l j)
    (hidle : Idle j.mirror (op.apply sha256 j)) :
    ∃ l', Tracked sha256 config l' (op.apply sha256 j) := by
  obtain ⟨l', hr, hmoves⟩ := op.apply_refines h.refines
  refine ⟨l', hr, hidle.2, ?_⟩
  rw [hidle.1]
  exact h.mirrored.of_prefix hmoves.entries_prefix

theorem Tracked.call {op : Operation} (h : Tracked sha256 config l j)
    (hfault : (JournalStep.call op).faultless = true)
    (hmirrors : (JournalStep.call op).mirrors sha256 j = true) :
    ∃ l', Tracked sha256 config l' (op.apply sha256 j) := by
  cases hop : op.updatesMirror with
  | false => exact h.of_idle (after_of_wp (op.call_idle hop hfault j h.idle))
  | true =>
    have hw := op.call_synced hop h
    rw [wp_iff] at hw
    cases hresult : (op.call sha256).result j with
    | error e => exact h.of_idle (hw.2 e hresult)
    | ok a =>
      simp only [JournalStep.mirrors, hresult] at hmirrors
      obtain ⟨l', h', -⟩ := hw.1 a hresult hmirrors
      exact ⟨l', h'⟩

theorem Tracked.reopen (h : Tracked sha256 config l j)
    (hmirrors : JournalStep.reopen.mirrors sha256 j = true) :
    ∃ l', Tracked sha256 config l' (JournalStep.reopen.apply sha256 j) := by
  simp only [JournalStep.apply, WitnessJournal.openExisting]
  simp only [JournalStep.mirrors] at hmirrors
  cases hopen : j.reopen ∅ { j.mirror with sequence := 0 } with
  | error e => exact ⟨l, h⟩
  | ok j' =>
    simp only [hopen] at hmirrors
    have hr := h.refines.reopen hopen
    have hfields : j'.mirror = { j.mirror with sequence := 0 } ∧ j'.faults = ∅ ∧
        j'.store = j.store := by
      simp only [WitnessJournal.reopen, Except.ite_error_eq_ok] at hopen
      obtain ⟨-, -, -, -, -, hj'⟩ := hopen
      obtain rfl := Except.ok.inj hj'
      exact ⟨rfl, rfl, rfl⟩
    obtain ⟨hmirror, hfaults, hstore⟩ := hfields
    have hrepair := repairReadMirror_mirrored hr hmirror h.mirrored ?_ ?_ ?_
    · obtain ⟨-, -, m, hafter, hm⟩ := ok_of_wp hrepair
      refine ⟨l, ?_⟩
      show Tracked sha256 config l ((repairReadMirror sha256).after j')
      rw [hafter]
      exact ⟨hr.of_handle _ _ _ _ _, hfaults, hm⟩
    · intro hnone
      have hwhole := unmirroredBytes_eq (h.refines.of_handle j.faults j.automationStopped j.stopMarker
        j.reserveFile { j.mirror with sequence := 0 })
      rw [if_pos hnone, decide_eq_true_eq, hwhole] at hmirrors
      exact hmirrors
    · intro hsome
      rw [if_neg hsome, decide_eq_true_eq] at hmirrors
      rw [hstore]
      exact h.active_of_reach hmirrors.1
    · intro hsome
      rw [if_neg hsome, decide_eq_true_eq] at hmirrors
      have hfit := hmirrors.2
      simp only [partsFit, decide_eq_true_eq, unmirroredBytes_eq h.refines, h.refines.sameConfig,
        List.map_nil, List.sum_nil, Nat.add_zero] at hfit
      exact hfit

theorem runSteps_tracked (steps : List JournalStep) (h : Tracked sha256 config l j)
    (hfault : ∀ step ∈ steps, step.faultless = true)
    (hmirrors : mirrorsRun sha256 steps j = true) :
    ∃ l', Tracked sha256 config l' (runSteps sha256 steps j) := by
  induction steps generalizing l j with
  | nil => exact ⟨l, h⟩
  | cons step steps ih =>
    rw [mirrorsRun, Bool.and_eq_true] at hmirrors
    obtain ⟨l', h'⟩ : ∃ l', Tracked sha256 config l' (step.apply sha256 j) := by
      cases step with
      | call op => exact h.call (hfault _ List.mem_cons_self) hmirrors.1
      | reopen => exact h.reopen hmirrors.1
    exact ih h' (fun x hx => hfault x (List.mem_cons_of_mem _ hx)) hmirrors.2

theorem mirrorsRun_append (steps : List JournalStep) (step : JournalStep) (j : WitnessJournal) :
    mirrorsRun sha256 (steps ++ [step]) j
      = (mirrorsRun sha256 steps j && step.mirrors sha256 (runSteps sha256 steps j)) := by
  induction steps generalizing j with
  | nil => simp [mirrorsRun, runSteps]
  | cons s steps ih =>
    rw [List.cons_append, mirrorsRun, mirrorsRun, ih, Bool.and_assoc]
    rfl

theorem create_tracked (sha256 : Hasher) (config : JournalConfig) :
    Tracked sha256 config .empty (.create config ∅) := by
  refine ⟨create_refines sha256 config ∅, rfl, rfl, Nat.le_refl _, [], [], rfl, rfl, ?_, by simp, ?_⟩
  · exact (List.append_nil _).symm
  · intro d hd
    rw [List.nil_append] at hd
    rw [List.mem_singleton.mp hd, length_mirrorFile_eq]
    exact headerBytes_add_le (Nat.zero_le _)

theorem Synced.yields (h : Synced sha256 config j) : ReaderYieldsRecords sha256 j := by
  obtain ⟨l, ht, hlen⟩ := h
  refine ⟨ht.mirrored.fresh, _, ht.refines.records_eq, fun listing hperm => ?_⟩
  rw [ht.refines.sameConfig, ht.mirrored.read_eq ht.refines hperm, hlen, List.take_length]

end Run

/-- In every run without faults in which each append that returns finds the records the mirror
lacks among the active ones and does not seal them first, each of these appends leaves a mirror
that is not stale and whose reader yields exactly the records of the journal. -/
theorem run_reader_yields_records (sha256 : Hasher) (config : JournalConfig)
    (steps : List JournalStep) (op : Operation) (hop : op.updatesMirror = true)
    (hfault : ∀ step ∈ steps, step.faultless = true)
    (hmirrors : mirrorsRun sha256 (steps ++ [.call op]) (.create config ∅) = true)
    (hok : (op.call sha256).result (runSteps sha256 steps (.create config ∅)) = .ok ()) :
    ReaderYieldsRecords sha256 (runSteps sha256 (steps ++ [.call op]) (.create config ∅)) := by
  rw [mirrorsRun_append, Bool.and_eq_true] at hmirrors
  obtain ⟨l, h⟩ := runSteps_tracked steps (create_tracked sha256 config) hfault hmirrors.1
  have hw := op.call_synced hop h
  rw [wp_iff] at hw
  have hlast := hmirrors.2
  simp only [JournalStep.mirrors, hok] at hlast
  rw [runSteps, List.foldl_append]
  exact (hw.1 () hok hlast).yields

def unknownSteps : List JournalStep :=
  [.call receivedOnce,
    .call (.appendDecision (.fill 16 7) (plainRecord (.fill 16 7) (.fill 16 2) .decision)),
    .call (.recordOutcomeUnknown (.fill 16 7) { plainRecord (.fill 16 7) (.fill 16 3) .outcome with
      outcome := .outcomeUnknown
      reason := some .executionFailed })]

def receivedNext : Operation :=
  .appendReceived (.fill 16 8) 1 plainRecipe (plainRecord (.fill 16 8) (.fill 16 4) .requestReceived)

def segmented (segmentBytes : UInt64) : JournalConfig :=
  { JournalConfig.new (.zero 16) .required with segmentBytes := segmentBytes }

theorem run_reader_yields_records_unknown :
    mirrorsRun Sha256.sha256 (unknownSteps ++ [.reopen] ++ [.call receivedNext])
        (.create (segmented 2000) ∅) = true ∧
      (receivedNext.call Sha256.sha256).result (runSteps Sha256.sha256 (unknownSteps ++ [.reopen])
        (.create (segmented 2000) ∅)) = .ok () ∧
      ReaderYieldsRecords Sha256.sha256 (runSteps Sha256.sha256
        (unknownSteps ++ [.reopen] ++ [.call receivedNext]) (.create (segmented 2000) ∅)) := by
  have hrun : mirrorsRun Sha256.sha256 (unknownSteps ++ [.reopen] ++ [.call receivedNext])
        (.create (segmented 2000) ∅) = true ∧
      (receivedNext.call Sha256.sha256).result (runSteps Sha256.sha256 (unknownSteps ++ [.reopen])
        (.create (segmented 2000) ∅)) = .ok () := by
    rw [Sha256.sha256_eq_unrolled]
    decide +kernel
  exact ⟨hrun.1, hrun.2, run_reader_yields_records _ _ _ _ rfl (by decide) hrun.1 hrun.2⟩

/-- The unknown outcome fills the segment and is sealed by its own rotation before it was
mirrored; the next request is appended, and its mirror update fails. -/
theorem sealed_unknown_outcome_leaves_mirror_stale :
    (∀ step ∈ unknownSteps, step.faultless = true) ∧
      (receivedNext.call Sha256.sha256).result
        (runSteps Sha256.sha256 unknownSteps (.create (segmented 993) ∅)) = .ok () ∧
      (runSteps Sha256.sha256 (unknownSteps ++ [.call receivedNext])
        (.create (segmented 993) ∅)).mirror.stale = true ∧
      ¬ ReaderYieldsRecords Sha256.sha256 (runSteps Sha256.sha256
        (unknownSteps ++ [.call receivedNext]) (.create (segmented 993) ∅)) := by
  have hrun : (receivedNext.call Sha256.sha256).result
        (runSteps Sha256.sha256 unknownSteps (.create (segmented 993) ∅)) = .ok () ∧
      (runSteps Sha256.sha256 (unknownSteps ++ [.call receivedNext])
        (.create (segmented 993) ∅)).mirror.stale = true := by
    rw [Sha256.sha256_eq_unrolled]
    decide +kernel
  refine ⟨by decide, hrun.1, hrun.2, fun h => ?_⟩
  exact absurd (h.1.symm.trans hrun.2) (by decide)

end Ferrocrate.Witness

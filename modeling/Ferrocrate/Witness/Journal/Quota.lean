import Ferrocrate.Lib.Sha256
import Ferrocrate.Witness.Journal.Faultless
import Ferrocrate.Witness.Journal.Run

/-! The byte quota of a journal. Appends are checked against it before they seal and before
they write; a seal adds a frame to every record it moves, which no check counts. -/
namespace Ferrocrate.Witness
open Lib Lib.Program Journal

def Store.activeBytes (s : Store) : Nat := (s.records.entries.map (·.2.length)).sum

def Store.sealedBytes (s : Store) : Nat := (s.sealedSegments.entries.map (·.2.length)).sum

def frameBytes : Nat := 12

def rotationFrames (config : JournalConfig) (active count : Nat) : Nat :=
  if config.segmentBytes.toNat ≤ active then frameBytes * count else 0

def appendFrameBytes (config : JournalConfig) (rotates : Bool) (s : Store) (lengths : List Nat) :
    Nat :=
  if s.activeBytes ≠ 0 ∧ s.activeBytes + lengths.sum > config.segmentBytes.toNat then
    frameBytes * s.records.size +
      (if rotates then rotationFrames config lengths.sum lengths.length else 0)
  else if rotates then
    rotationFrames config (s.activeBytes + lengths.sum) (s.records.size + lengths.length)
  else 0

def appendFits (config : JournalConfig) (rotates : Bool) (s : Store) (lengths : List Nat) : Bool :=
  appendFrameBytes config rotates s lengths = 0
    ∨ s.bytes + lengths.sum > config.maxJournalBytes.toNat - config.cleanupReserveBytes.toNat
    ∨ s.bytes + lengths.sum + appendFrameBytes config rotates s lengths + s.metadata.reserve.toNat
        ≤ config.maxJournalBytes.toNat

def recoveryFits (config : JournalConfig) (s : Store) (length : Nat) : Bool :=
  rotationFrames config (s.activeBytes + length) (s.records.size + 1) = 0
    ∨ s.metadata.reserve.toNat < length
    ∨ s.bytes + rotationFrames config (s.activeBytes + length) (s.records.size + 1)
        + s.metadata.reserve.toNat ≤ config.maxJournalBytes.toNat

def maintainFits (config : JournalConfig) (s : Store) : Bool :=
  s.records.size = 0
    ∨ s.bytes + frameBytes * s.records.size + s.metadata.reserve.toNat ≤ config.maxJournalBytes.toNat

def Operation.fits (op : Operation) (j : WitnessJournal) : Bool :=
  let length (record : WitnessRecord) := (recordLayout j.config.journalId record).length
  match op with
  | appendReceived _ _ _ record => appendFits j.config true j.store [length record]
  | appendDecision _ record => appendFits j.config true j.store [length record]
  | deny _ decision denied => appendFits j.config true j.store [length decision, length denied]
  | complete _ record =>
    -- a forced outcome is changed and returns without a rotation
    if .beforeFlush .outcome ∈ j.faults then
      appendFits j.config false j.store [length { record with reason := some .executionFailed }]
    else appendFits j.config true j.store [length record]
  | recordOutcomeUnknown _ record => appendFits j.config true j.store [length record]
  | completeRecovery _ record => recoveryFits j.config j.store (length record)
  | appendCheckpointPublication digest record =>
    appendFits j.config false j.store [length { record with resultDigest := some digest }]
  | maintain => maintainFits j.config j.store
  | advanceEpoch _ => true
  | failOnce _ => true

def fitsRun (sha256 : Hasher) : List Operation → WitnessJournal → Bool
  | [], _ => true
  | op :: ops, j => op.fits j && fitsRun sha256 ops (op.apply sha256 j)

def recoveryBytes (j : WitnessJournal) : Nat :=
  match Journal.records j with
  | .error _ => 0
  | .ok stored => (stored.map fun bytes =>
    match decodeRecord bytes with
    | .error _ => 0
    | .ok d => if d.record.stage = .recovery then bytes.length else 0).sum

namespace Journal

structure Within (config : JournalConfig) (reserve : UInt64) (j : WitnessJournal) : Prop where
  sameConfig : j.config = config
  sameReserve : j.store.metadata.reserve = reserve
  room : j.store.bytes ≤ config.databaseLimit
  quota : j.store.bytes + reserve.toNat ≤ config.maxJournalBytes.toNat

structure Headroom (config : JournalConfig) (reserve : UInt64) (rotates : Bool)
    (additional count : Nat) (j : WitnessJournal) : Prop where
  sameConfig : j.config = config
  sameReserve : j.store.metadata.reserve = reserve
  room : j.store.bytes ≤ config.databaseLimit
  quota : j.store.bytes + additional + reserve.toNat + (if rotates then
    rotationFrames config (j.store.activeBytes + additional) (j.store.records.size + count) else 0)
      ≤ config.maxJournalBytes.toNat

variable {config : JournalConfig} {reserve : UInt64} {rotates : Bool} {additional count : Nat}
  {j : WitnessJournal} {s : Store}

theorem bytes_eq (s : Store) : s.bytes = s.activeBytes + s.sealedBytes := rfl

theorem framed_length (entries : List (UInt64 × Bytes)) : (segmentBlob entries).length
    = (entries.map (·.2.length)).sum + frameBytes * entries.length := by
  rw [length_segmentBlob, frameBytes]
  induction entries with
  | nil => rfl
  | cons e es ih =>
    simp only [List.map_cons, List.sum_cons, List.length_cons] at ih ⊢
    omega

theorem Headroom.within (h : Headroom config reserve rotates additional count j) :
    Within config reserve j := by
  have hquota := h.quota
  exact ⟨h.sameConfig, h.sameReserve, h.room, by omega⟩

theorem rotationFrames_mono {active active' count count' : Nat} (ha : active ≤ active')
    (hc : count ≤ count') :
    rotationFrames config active count ≤ rotationFrames config active' count' := by
  unfold rotationFrames
  split
  · rw [if_pos (by omega)]
    exact Nat.mul_le_mul_left _ hc
  · exact Nat.zero_le _

theorem Headroom.commit {rest restCount : Nat} (h : Headroom config reserve rotates additional count j)
    (hreserve : s.metadata.reserve = j.store.metadata.reserve) (hroom : s.bytes ≤ config.databaseLimit)
    (hsealed : s.sealedSegments = j.store.sealedSegments)
    (hactive : s.activeBytes + rest ≤ j.store.activeBytes + additional)
    (hsize : s.records.size + restCount ≤ j.store.records.size + count) :
    Headroom config reserve rotates rest restCount { j with store := s } := by
  have hquota := h.quota
  have hframes : rotationFrames config _ _ ≤ rotationFrames config _ _ :=
    rotationFrames_mono hactive hsize
  have hold := bytes_eq j.store
  have hnew : s.bytes = s.activeBytes + j.store.sealedBytes := by
    rw [bytes_eq, Store.sealedBytes, hsealed]
    rfl
  refine ⟨h.sameConfig, hreserve.trans h.sameReserve, hroom, ?_⟩
  show s.bytes + rest + reserve.toNat + _ ≤ _
  cases rotates with
  | false =>
    simp only [Bool.false_eq_true, if_false] at hquota ⊢
    omega
  | true =>
    simp only [if_true] at hquota ⊢
    omega

theorem wp_sealActiveSegment (force : Bool) {Q : WitnessJournal → Prop}
    {E : JournalError → WitnessJournal → Prop}
    (hkept : force = false ∨ j.store.records.entries = [] → ∀ faults, Q { j with faults := faults })
    (herror : ∀ e faults, E e { j with faults := faults })
    (hmoved : (force = true ∨ config.segmentBytes.toNat ≤ j.store.activeBytes) →
      ∀ faults s, s.metadata.reserve = j.store.metadata.reserve → s.bytes ≤ config.databaseLimit →
        s.records.entries = [] →
        s.bytes ≤ j.store.bytes + frameBytes * j.store.records.size →
        Q { j with faults := faults, store := s })
    (hconfig : j.config = config) :
    wp (sealActiveSegment force) (fun _ => Q) E j := by
  simp only [sealActiveSegment, failAt, wp_bind, wp_takeFault, wp_rejectIf, wp_get, wp_ite, wp_pure,
    wp_okOr, wp_transaction]
  refine ⟨fun _ => herror _ _, fun _ => ⟨fun hnone => hkept (hnone.symm.imp_left And.left) _, fun hsome => ⟨fun next hnext =>
    ⟨fun s hs => ⟨fun hroom => ?_, fun _ => herror _ _⟩, fun _ _ => herror _ _⟩, fun _ => herror _ _⟩⟩⟩
  rw [not_or, not_and, not_lt] at hsome
  simp only [Except.ite_error_eq_ok] at hs
  obtain ⟨-, -, hs⟩ := hs
  have hs := Except.ok.inj hs
  have hbranch : force = true ∨ config.segmentBytes.toNat ≤ j.store.activeBytes := by
    cases force with
    | true => exact .inl rfl
    | false =>
      rw [← hconfig]
      exact .inr (hsome.2 rfl)
  have hempty : s.records.entries = [] := by
    rw [← hs]
    exact Tree.entries_foldl_remove _ _ (List.append_nil _).symm
  refine hmoved hbranch _ s (by rw [← hs]) (by rw [← hconfig]; exact hroom) hempty ?_
  have hput : s.sealedBytes
      ≤ j.store.sealedBytes + (segmentBlob j.store.records.entries).length := by
    rw [← hs]
    exact Tree.sum_put_le List.length j.store.sealedSegments _ _
  have hblob : (segmentBlob j.store.records.entries).length
      = j.store.activeBytes + frameBytes * j.store.records.size := framed_length _
  have hnew : s.bytes = s.sealedBytes := by
    rw [bytes_eq, Store.activeBytes, hempty]
    simp
  rw [hnew, bytes_eq]
  omega

theorem postAckRotation_within (h : Headroom config reserve true 0 0 j) :
    wp postAckRotation (fun _ => Within config reserve) (fun _ => Within config reserve) j := by
  have hdefer : ∀ (j : WitnessJournal) (deferred : Bool), Within config reserve j →
      Within config reserve { j with store := { j.store with metadata :=
        { j.store.metadata with rotationDeferred := deferred } } } :=
    fun _ _ h => ⟨h.sameConfig, h.sameReserve, h.room, h.quota⟩
  have hkept : ∀ faults, Within config reserve { j with faults := faults } := fun _ =>
    ⟨h.sameConfig, h.sameReserve, h.room, h.within.quota⟩
  have hseal : wp (sealActiveSegment false) (fun _ => Within config reserve)
      (fun _ => Within config reserve) j := by
    refine wp_sealActiveSegment false (fun _ => hkept) (fun _ => hkept) ?_ h.sameConfig
    rintro (hforce | hfull) faults s hreserve hroom - hbytes
    · cases hforce
    · have hquota := h.quota
      simp only [if_true, rotationFrames, Nat.add_zero, if_pos hfull] at hquota
      exact ⟨h.sameConfig, hreserve.trans h.sameReserve, hroom, by
        show s.bytes + _ ≤ _
        omega⟩
  simp only [postAckRotation, wp_bind, wp_attempt]
  exact wp_mono hseal (fun _ _ h => hdefer _ _ h) (fun _ _ h => hdefer _ _ h)

theorem maintain_within (h : Within config reserve j) (hfits : maintainFits config j.store = true) :
    wp maintain (fun _ => Within config reserve) (fun _ => Within config reserve) j := by
  have hkept : ∀ faults, Within config reserve { j with faults := faults } := fun _ =>
    ⟨h.sameConfig, h.sameReserve, h.room, h.quota⟩
  refine wp_sealActiveSegment true (fun _ => hkept) (fun _ => hkept) ?_ h.sameConfig
  rintro - faults s hreserve hroom - hbytes
  have hquota := h.quota
  simp only [maintainFits, decide_eq_true_eq, h.sameReserve] at hfits
  refine ⟨h.sameConfig, hreserve.trans h.sameReserve, hroom, ?_⟩
  show s.bytes + _ ≤ _
  obtain hnone | hfits := hfits
  · rw [hnone] at hbytes
    omega
  · omega

theorem usedBytes_eq (t : Tree UInt64 Bytes) :
    usedBytes t = min (t.entries.map (·.2.length)).sum (2 ^ 64 - 1) := by
  have hfold : ∀ (es : List (UInt64 × Bytes)) (sum : Nat), sum ≤ 2 ^ 64 - 1 →
      es.foldl (fun sum e => saturatingAdd sum e.2.length) sum
        = min (sum + (es.map (·.2.length)).sum) (2 ^ 64 - 1) := by
    intro es
    induction es with
    | nil =>
      intro sum hsum
      simp only [List.foldl_nil, List.map_nil, List.sum_nil]
      omega
    | cons e es ih =>
      intro sum hsum
      rw [List.foldl_cons, ih _ (by simp only [saturatingAdd]; omega)]
      simp only [List.map_cons, List.sum_cons, saturatingAdd]
      omega
  rw [usedBytes, hfold _ _ (Nat.zero_le _), Nat.zero_add]

theorem ensureUserCapacity_headroom {lengths : List Nat} (h : Within config reserve j)
    (hreserve : reserve.toNat ≤ config.cleanupReserveBytes.toNat) (hsmall : lengths.sum ≤ 2 * recordBound)
    (hfits : appendFits config rotates j.store lengths = true) :
    wp (ensureUserCapacity lengths.sum)
      (fun _ => Headroom config reserve rotates lengths.sum lengths.length)
      (fun _ => Within config reserve) j := by
  have hroom := h.room
  have hlimit : config.databaseLimit ≤ 2 ^ 48 := config.databaseLimit_le
  have hbytes := bytes_eq j.store
  have hbound : recordBound = 419 := rfl
  have hactive : usedBytes j.store.records = j.store.activeBytes := by
    rw [usedBytes_eq]
    show min j.store.activeBytes _ = _
    omega
  have hsealed : usedBytes j.store.sealedSegments = j.store.sealedBytes := by
    rw [usedBytes_eq]
    show min j.store.sealedBytes _ = _
    omega
  have hsum : saturatingAdd j.store.activeBytes j.store.sealedBytes = j.store.bytes := by
    rw [saturatingAdd]
    omega
  have hadd : ∀ n, n ≤ j.store.bytes → saturatingAdd n lengths.sum = n + lengths.sum := by
    intro n hn
    rw [saturatingAdd]
    omega
  simp only [ensureUserCapacity, wp_bind, wp_get, wp_rejectIf, wp_okOr, wp_runIf, wp_failingWith,
    hactive, hsealed, hsum, hadd _ (Nat.le_refl _),
    hadd j.store.activeBytes (hbytes ▸ Nat.le_add_right _ _), h.sameConfig]
  refine ⟨fun _ => h, fun _ => ⟨fun limit hlimit => ⟨fun _ => h, fun hadmitted => ?_⟩, fun _ => h⟩⟩
  have hlimit : limit.toNat = config.maxJournalBytes.toNat - config.cleanupReserveBytes.toNat
      ∧ config.cleanupReserveBytes.toNat ≤ config.maxJournalBytes.toNat := by
    unfold checkedSub at hlimit
    split at hlimit
    next hle =>
      obtain rfl := Option.some.inj hlimit
      exact ⟨UInt64.toNat_sub_of_le _ _ hle, UInt64.le_iff_toNat_le.mp hle⟩
    · cases hlimit
  -- the frames are nought, or there is room for them
  have hframes : j.store.bytes + lengths.sum + appendFrameBytes config rotates j.store lengths
      + reserve.toNat ≤ config.maxJournalBytes.toNat := by
    simp only [appendFits, decide_eq_true_eq, h.sameReserve] at hfits
    omega
  have hkept : ∀ faults, Within config reserve { j with faults := faults } := fun _ =>
    ⟨h.sameConfig, h.sameReserve, h.room, h.quota⟩
  constructor
  · intro hforced
    rw [appendFrameBytes, if_pos hforced] at hframes
    refine wp_sealActiveSegment true ?_ (fun _ => hkept) ?_ h.sameConfig
    · rintro (hforce | hempty)
      · cases hforce
      · exact absurd (by rw [Store.activeBytes, hempty]; rfl) hforced.1
    · rintro - faults s hsame hfit hempty hmoved
      have hnothing : s.activeBytes = 0 := by rw [Store.activeBytes, hempty]; rfl
      have hnone : s.records.size = 0 := by rw [Tree.size, hempty]; rfl
      refine ⟨h.sameConfig, hsame.trans h.sameReserve, hfit, ?_⟩
      simp only [hnothing, hnone, Nat.zero_add]
      omega
  · intro hunforced
    rw [appendFrameBytes, if_neg hunforced] at hframes
    exact ⟨h.sameConfig, h.sameReserve, h.room, by omega⟩

theorem ensureUserCapacity_one {length : Nat} (h : Within config reserve j)
    (hreserve : reserve.toNat ≤ config.cleanupReserveBytes.toNat) (hsmall : length ≤ recordBound)
    (hfits : appendFits config rotates j.store [length] = true) :
    wp (ensureUserCapacity length) (fun _ => Headroom config reserve rotates length 1)
      (fun _ => Within config reserve) j := by
  have hsum : [length].sum = length := List.sum_singleton
  have hcapacity := ensureUserCapacity_headroom h hreserve (by rw [hsum]; omega) hfits
  rwa [hsum] at hcapacity

theorem Headroom.put {key : UInt64} {value : Bytes}
    (h : Headroom config reserve rotates value.length 1 j)
    (hrecords : s.records = j.store.records.put key value)
    (hsealed : s.sealedSegments = j.store.sealedSegments)
    (hreserve : s.metadata.reserve = j.store.metadata.reserve)
    (hroom : s.bytes ≤ j.config.databaseLimit) :
    Headroom config reserve rotates 0 0 { j with store := s } := by
  rw [h.sameConfig] at hroom
  refine h.commit hreserve hroom hsealed ?_ ?_
  · rw [Store.activeBytes, hrecords]
    exact Tree.sum_put_le List.length _ _ _
  · rw [hrecords]
    exact Tree.size_put_le _ _ _

theorem Headroom.of_faults (j : WitnessJournal) (faults : Finset FaultPoint)
    (h : Headroom config reserve rotates additional count j) :
    Headroom config reserve rotates additional count { j with faults := faults } :=
  ⟨h.sameConfig, h.sameReserve, h.room, h.quota⟩

theorem Headroom.of_mirror (j : WitnessJournal) (mirror : ReadMirror)
    (h : Headroom config reserve rotates additional count j) :
    Headroom config reserve rotates additional count { j with mirror := mirror } :=
  ⟨h.sameConfig, h.sameReserve, h.room, h.quota⟩

theorem acknowledge_within {boundary : FlushBoundary} {id : OperationId}
    (h : Headroom config reserve true 0 0 j) :
    wp (flush boundary id) (fun _ s => wp updateReadMirrorBestEffort
      (fun _ s => wp postAckRotation (fun _ => Within config reserve)
        (fun _ => Within config reserve) s) (fun _ => Within config reserve) s)
      (fun _ => Within config reserve) j := by
  refine wp_mono (flush_preserves Headroom.of_faults _ _ j h) (fun _ j h => ?_)
    (fun _ _ h => h.within)
  refine wp_mono (updateReadMirrorBestEffort_returns Headroom.of_mirror h) (fun _ j h => ?_)
    (fun _ _ hf => hf.elim)
  exact postAckRotation_within h

def Untouched (config : JournalConfig) (reserve : UInt64) (s : Store) (j : WitnessJournal) : Prop :=
  Within config reserve j ∧ j.store = s

theorem Untouched.of_faults (j : WitnessJournal) (faults : Finset FaultPoint)
    (h : Untouched config reserve s j) : Untouched config reserve s { j with faults := faults } :=
  ⟨⟨h.1.sameConfig, h.1.sameReserve, h.1.room, h.1.quota⟩, h.2⟩

theorem preflight_untouched (boundary : FlushBoundary) :
    Preserves (Untouched config reserve s) (preflight boundary) := by
  intro j h
  simp only [preflight, wp_bind, wp_get, wp_rejectIf]
  refine ⟨fun _ => h, fun _ => ?_⟩
  refine wp_mono (failAt_preserves Untouched.of_faults _ _ j h) (fun _ j h => ?_) (fun _ _ h => h)
  exact failAt_preserves Untouched.of_faults _ _ j h

theorem preflight_outcome_untouched {p : Prop}
    (h : Untouched config reserve s j ∧ (.beforeFlush .outcome ∈ j.faults ↔ p)) :
    wp (preflight .outcome)
      (fun _ j => Untouched config reserve s j ∧ (.beforeFlush .outcome ∈ j.faults ↔ p))
      (fun _ => Untouched config reserve s) j := by
  obtain ⟨hstore, hfault⟩ := h
  simp only [preflight, failAt, wp_bind, wp_get, wp_takeFault, wp_rejectIf]
  refine ⟨fun _ => hstore, fun _ => ⟨fun _ => .of_faults _ _ hstore, fun _ =>
    ⟨fun _ => .of_faults _ _ (.of_faults _ _ hstore), fun _ =>
      ⟨.of_faults _ _ (.of_faults _ _ hstore), ?_⟩⟩⟩⟩
  simp [hfault]

theorem length_restamped (journalId : Id) (r : WitnessRecord) (epoch sequence : UInt64)
    (previousHash : Digest) :
    (recordLayout journalId { r with
      epoch := epoch, sequence := sequence, previousHash := previousHash }).length
      = (recordLayout journalId r).length := by
  simp only [length_recordLayout]

section Appends
variable {sha256 : Hasher}
  (hreserve : reserve.toNat ≤ config.cleanupReserveBytes.toNat)
include hreserve

theorem capacity_headroom {journalId : Id} {record : WitnessRecord} {epoch sequence : UInt64}
    {previousHash : Digest} {bytes : RecordBytes} (h : Within config reserve j)
    (hbytes : encodeRecord journalId { record with
      epoch := epoch, sequence := sequence, previousHash := previousHash } = .ok bytes)
    (hfits : appendFits config rotates j.store [(recordLayout journalId record).length] = true) :
    wp (ensureUserCapacity bytes.bytes.length)
      (fun _ => Headroom config reserve rotates bytes.bytes.length 1)
      (fun _ => Within config reserve) j := by
  obtain ⟨-, -, rfl⟩ := (encodeRecord_ok_iff _ _ _).mp hbytes
  have hlength := length_restamped journalId record epoch sequence previousHash
  refine ensureUserCapacity_one h hreserve (length_recordLayout_le _ _) ?_
  rwa [hlength]

theorem appendReceivedAt_within (epoch : UInt64) (id : OperationId) (generation : UInt64)
    (recipe : RecoveryRecipe) (record : WitnessRecord) (h : Within config reserve j)
    (hfits : appendFits config true j.store [(recordLayout config.journalId record).length] = true) :
    wp (appendReceivedAt sha256 epoch id generation recipe record) (fun _ => Within config reserve)
      (fun _ => Within config reserve) j := by
  simp only [appendReceivedAt, wp_bind, wp_rejectIf, wp_get, wp_ofExcept, wp_transaction,
    Except.ite_error_eq_ok]
  refine ⟨fun _ => h, fun _ => ⟨fun _ => h, fun _ => ?_⟩⟩
  refine wp_mono (preflight_untouched _ j ⟨h, rfl⟩) ?_ (fun _ _ h => h.1)
  rintro _ j ⟨h, hstore⟩
  rw [← hstore] at hfits
  refine ⟨fun _ => h, fun _ => ⟨fun bytes hbytes => ?_, fun _ _ => h⟩⟩
  rw [h.sameConfig] at hbytes
  refine wp_mono (capacity_headroom hreserve h hbytes hfits) ?_ (fun _ _ h => h)
  intro _ j h
  refine ⟨?_, fun _ _ => h.within⟩
  rintro s ⟨-, -, -, hs⟩
  refine ⟨fun hroom => ?_, fun _ => h.within⟩
  have hs := Except.ok.inj hs
  exact acknowledge_within (h.put (by rw [← hs]) (by rw [← hs]) (by rw [← hs]) hroom)

theorem appendDecisionAt_within (epoch : UInt64) (id : OperationId) (record : WitnessRecord)
    (h : Within config reserve j)
    (hfits : appendFits config true j.store [(recordLayout config.journalId record).length] = true) :
    wp (appendDecisionAt sha256 epoch id record) (fun _ => Within config reserve)
      (fun _ => Within config reserve) j := by
  simp only [appendDecisionAt, appendDecisionRecord, wp_bind, wp_rejectIf, wp_get, wp_okOr,
    wp_ofExcept, wp_transaction, wp_pure, Except.ite_error_eq_ok]
  refine ⟨fun _ => h, fun _ => ?_⟩
  refine wp_mono (preflight_untouched _ j ⟨h, rfl⟩) ?_ (fun _ _ h => h.1)
  rintro _ j ⟨h, hstore⟩
  rw [← hstore] at hfits
  refine ⟨fun _ _ => ⟨fun _ _ => ⟨fun _ _ => ⟨fun _ _ => ?_, fun _ => h⟩, fun _ => h⟩, fun _ => h⟩,
    fun _ => h⟩
  refine ⟨fun _ => h, fun _ => ⟨fun _ => h, fun _ => ⟨fun _ => h, fun _ => ⟨fun _ _ => ?_,
    fun _ => h⟩⟩⟩⟩
  refine ⟨fun bytes hbytes => ?_, fun _ _ => h⟩
  rw [h.sameConfig] at hbytes
  refine wp_mono (capacity_headroom hreserve h hbytes hfits) ?_ (fun _ _ h => h)
  intro _ j h
  refine ⟨fun _ _ => ⟨?_, fun _ _ => h.within⟩, fun _ => h.within⟩
  rintro s ⟨-, -, hs⟩
  refine ⟨fun hroom => ?_, fun _ => h.within⟩
  have hs := Except.ok.inj hs
  exact acknowledge_within (h.put (by rw [← hs]) (by rw [← hs]) (by rw [← hs]) hroom)

theorem denyAt_within (epoch : UInt64) (id : OperationId) (decision denied : WitnessRecord)
    (h : Within config reserve j)
    (hfits : appendFits config true j.store [(recordLayout config.journalId decision).length,
      (recordLayout config.journalId denied).length] = true) :
    wp (denyAt sha256 epoch id decision denied) (fun _ => Within config reserve)
      (fun _ => Within config reserve) j := by
  simp only [denyAt, wp_bind, wp_rejectIf, wp_get, wp_okOr, wp_ofExcept, wp_transaction,
    Except.ite_error_eq_ok]
  refine ⟨fun _ => h, fun _ => ?_⟩
  refine wp_mono (preflight_untouched _ j ⟨h, rfl⟩) ?_ (fun _ _ h => h.1)
  rintro _ j ⟨h, hstore⟩
  rw [← hstore] at hfits
  refine ⟨fun _ _ => ⟨fun _ _ => ⟨fun _ => h, fun _ => ?_⟩, fun _ => h⟩, fun _ => h⟩
  refine ⟨fun bytes hbytes => ⟨fun bytes' hbytes' => ?_, fun _ _ => h⟩, fun _ _ => h⟩
  rw [h.sameConfig] at hbytes hbytes'
  obtain ⟨-, -, rfl⟩ := (encodeRecord_ok_iff _ _ _).mp hbytes
  obtain ⟨-, -, rfl⟩ := (encodeRecord_ok_iff _ _ _).mp hbytes'
  have hlength := length_restamped config.journalId decision epoch (j.head.1 + 1) j.head.2
  have hlength' := length_restamped config.journalId denied epoch (j.head.1 + 2)
    (hashRecord sha256 ⟨config.journalId, recordLayout config.journalId { decision with
      epoch := epoch, sequence := j.head.1 + 1, previousHash := j.head.2 }⟩)
  have hle := length_recordLayout_le config.journalId decision
  have hle' := length_recordLayout_le config.journalId denied
  have hsum : [(recordLayout config.journalId decision).length,
      (recordLayout config.journalId denied).length].sum
        = (recordLayout config.journalId decision).length
          + (recordLayout config.journalId denied).length := by simp
  have hcapacity := ensureUserCapacity_headroom h hreserve
    (by rw [hsum, recordBound]; omega) hfits
  rw [hsum, ← hlength, ← hlength'] at hcapacity
  refine wp_mono hcapacity ?_ (fun _ _ h => h)
  intro _ j h
  refine ⟨?_, fun _ _ => h.within⟩
  rintro s ⟨-, -, hs⟩
  refine ⟨fun hroom => ?_, fun _ => h.within⟩
  have hs := Except.ok.inj hs
  rw [h.sameConfig] at hroom
  refine acknowledge_within (h.commit (by rw [← hs]) hroom (by rw [← hs]) ?_ ?_)
  · rw [← hs]
    refine (Tree.sum_put_le List.length _ _ _).trans ?_
    rw [← Nat.add_assoc]
    exact Nat.add_le_add_right (Tree.sum_put_le List.length _ _ _) _
  · rw [← hs]
    refine (Tree.size_put_le _ _ _).trans ?_
    exact Nat.add_le_add_right (Tree.size_put_le _ _ _) 1

theorem recordOutcomeUnknownAt_within (epoch : UInt64) (id : OperationId) (record : WitnessRecord)
    (h : Within config reserve j)
    (hfits : appendFits config true j.store [(recordLayout config.journalId record).length] = true) :
    wp (recordOutcomeUnknownAt sha256 epoch id record) (fun _ => Within config reserve)
      (fun _ => Within config reserve) j := by
  simp only [recordOutcomeUnknownAt, wp_bind, wp_rejectIf, wp_get, wp_okOr, wp_ofExcept,
    wp_transaction, wp_ite, wp_throw, Except.ite_error_eq_ok]
  refine ⟨fun _ => h, fun _ => ?_⟩
  refine wp_mono (preflight_untouched _ j ⟨h, rfl⟩) ?_ (fun _ _ h => h.1)
  rintro _ j ⟨h, hstore⟩
  rw [← hstore] at hfits
  refine ⟨fun _ _ => ⟨fun _ _ => ⟨fun _ => ?_, fun _ => ⟨fun _ => h, fun _ =>
    ⟨fun bytes hbytes => ?_, fun _ _ => h⟩⟩⟩, fun _ => h⟩, fun _ => h⟩
  · exact wp_mono (flush_preserves Untouched.of_faults _ _ j ⟨h, rfl⟩) (fun _ _ h => h.1)
      (fun _ _ h => h.1)
  rw [h.sameConfig] at hbytes
  refine wp_mono (capacity_headroom hreserve h hbytes hfits) ?_ (fun _ _ h => h)
  intro _ j h
  refine ⟨?_, fun _ _ => h.within⟩
  rintro s ⟨-, -, hs⟩
  refine ⟨fun hroom => ?_, fun _ => h.within⟩
  have hs := Except.ok.inj hs
  have hput : Headroom config reserve true 0 0 { j with store := s } :=
    h.put (by rw [← hs]) (by rw [← hs]) (by rw [← hs]) hroom
  refine wp_mono (flush_preserves Headroom.of_faults _ _ _ hput) (fun _ j h => ?_)
    (fun _ _ h => h.within)
  exact postAckRotation_within h

theorem completeChecked_within (id : OperationId) (state : OperationState) (record : WitnessRecord)
    (forcedUnknown : Bool) (h : Within config reserve j)
    (hfits : appendFits config (!forcedUnknown) j.store
      [(recordLayout config.journalId record).length] = true) :
    wp (completeChecked sha256 id state record forcedUnknown) (fun _ => Within config reserve)
      (fun _ => Within config reserve) j := by
  simp only [completeChecked, wp_bind, wp_get, wp_ofExcept, wp_transaction, wp_ite, wp_throw,
    Except.ite_error_eq_ok]
  refine ⟨fun bytes hbytes => ?_, fun _ _ => h⟩
  rw [h.sameConfig] at hbytes
  refine wp_mono (capacity_headroom hreserve h hbytes hfits) ?_ (fun _ _ h => h)
  intro _ j h
  refine ⟨?_, fun _ _ => h.within⟩
  rintro s ⟨-, -, -, hs⟩
  refine ⟨fun hroom => ?_, fun _ => h.within⟩
  have hs := Except.ok.inj hs
  have hput : Headroom config reserve (!forcedUnknown) 0 0 { j with store := s } :=
    h.put (by rw [← hs]) (by rw [← hs]) (by rw [← hs]) hroom
  constructor
  · intro _
    exact wp_mono (updateReadMirrorBestEffort_returns Headroom.of_mirror hput)
      (fun _ _ h => h.within) (fun _ _ hf => hf.elim)
  · intro hforced
    rw [eq_false_of_ne_true hforced] at hput
    exact acknowledge_within hput

theorem completeAt_within (epoch : UInt64) (intent : DurableIntent) (record : WitnessRecord)
    (h : Within config reserve j)
    (hfits : (Operation.complete intent record).fits j = true) :
    wp (completeAt sha256 epoch intent record) (fun _ => Within config reserve)
      (fun _ => Within config reserve) j := by
  simp only [Operation.fits, h.sameConfig] at hfits
  simp only [completeAt, wp_bind, wp_rejectIf, wp_get, wp_okOr, wp_takeFault, wp_ite]
  refine ⟨fun _ => h, fun _ => ?_⟩
  refine wp_mono (preflight_outcome_untouched ⟨⟨h, rfl⟩, Iff.rfl⟩) ?_ (fun _ _ h => h.1)
  rintro _ j ⟨⟨h, hstore⟩, hfault⟩
  rw [← hstore] at hfits
  refine ⟨fun _ => h, fun _ => ⟨fun _ _ => ⟨fun _ _ => ⟨fun _ => h, fun _ => ⟨fun _ => h, fun _ => ?_⟩⟩,
    fun _ => h⟩, fun _ => h⟩⟩
  replace h : Within config reserve { j with faults := j.faults.erase (.beforeFlush .outcome) } :=
    ⟨h.sameConfig, h.sameReserve, h.room, h.quota⟩
  rw [decide_eq_true_eq, hfault]
  constructor
  · intro hforced
    rw [if_pos hforced] at hfits
    refine completeChecked_within hreserve _ _ _ true h ?_
    rw [length_recordLayout] at hfits ⊢
    exact hfits
  · intro hplain
    rw [if_neg hplain] at hfits
    refine completeChecked_within hreserve _ _ _ false h ?_
    rw [length_recordLayout] at hfits ⊢
    exact hfits

theorem publishLocked_within (artifactDigest : Digest) (record : WitnessRecord)
    (h : Within config reserve j)
    (hfits : appendFits config false j.store [(recordLayout config.journalId record).length] = true) :
    wp (publishLocked sha256 artifactDigest record) (fun _ => Within config reserve)
      (fun _ => Within config reserve) j := by
  simp only [publishLocked, wp_bind, wp_rejectIf, wp_get]
  refine ⟨fun _ => h, fun _ => ?_⟩
  cases j.store.events.get record.eventId with
  | some sequence =>
    simp only [wp_bind, wp_okOr, wp_ofExcept, wp_rejectIf]
    exact ⟨fun _ _ => ⟨fun _ _ => ⟨fun _ => h, fun _ => h⟩, fun _ _ => h⟩, fun _ => h⟩
  | none =>
    simp only [wp_bind, wp_get, wp_okOr, wp_ofExcept, wp_transaction, Except.ite_error_eq_ok]
    refine wp_mono (preflight_untouched _ j ⟨h, rfl⟩) (fun _ j h => ?_) (fun _ _ h => h.1)
    refine wp_mono (failAt_preserves Untouched.of_faults _ _ j h) ?_ (fun _ _ h => h.1)
    rintro _ j ⟨h, hstore⟩
    rw [← hstore] at hfits
    refine ⟨fun _ _ => ⟨fun bytes hbytes => ?_, fun _ _ => h⟩, fun _ => h⟩
    rw [h.sameConfig] at hbytes
    refine wp_mono (capacity_headroom hreserve h hbytes hfits) ?_ (fun _ _ h => h)
    intro _ j h
    refine ⟨?_, fun _ _ => h.within⟩
    rintro s ⟨-, -, hs⟩
    refine ⟨fun hroom => ?_, fun _ => h.within⟩
    have hs := Except.ok.inj hs
    have hput : Headroom config reserve false 0 0 { j with store := s } :=
      h.put (by rw [← hs]) (by rw [← hs]) (by rw [← hs]) hroom
    refine wp_mono (flush_preserves Headroom.of_faults _ _ _ hput) (fun _ j h => ?_)
      (fun _ _ h => h.within)
    exact wp_mono (updateReadMirrorBestEffort_returns Headroom.of_mirror h)
      (fun _ _ h => h.within) (fun _ _ hf => hf.elim)

end Appends

/-! Recoveries are charged to the reserve. -/

structure Uncharged (s : Store) (j : WitnessJournal) : Prop where
  records : j.store.records = s.records
  sealedSegments : j.store.sealedSegments = s.sealedSegments
  reserve : j.store.metadata.reserve = s.metadata.reserve

theorem stopAutomation_uncharged : Preserves (Uncharged s) stopAutomation :=
  preserves_modify fun _ h => ⟨h.records, h.sealedSegments, h.reserve⟩

theorem stopAt_uncharged (point : FaultPoint) : Preserves (Uncharged s) (stopAt point) := by
  have htake : Preserves (Uncharged s) (takeFault point) :=
    fun _ h => ⟨h.records, h.sealedSegments, h.reserve⟩
  exact htake.bind fun _ => Preserves.runIf _
    (stopAutomation_uncharged.bind fun _ => preserves_throw _)

theorem beginCleanupReservation_uncharged (id : OperationId) (bytes : Nat) (h : Uncharged s j) :
    wp (beginCleanupReservation id bytes)
      (fun next j => Uncharged s j ∧ checkedSub s.metadata.reserve (UInt64.ofNat bytes) = some next)
      (fun _ => Uncharged s) j := by
  simp only [beginCleanupReservation, wp_bind, wp_get, wp_rejectIf]
  refine wp_mono (stopAt_uncharged _ j h) (fun _ j h => ?_) (fun _ _ h => h)
  refine wp_mono (stopAt_uncharged _ j h) (fun _ j h => ?_) (fun _ _ h => h)
  refine ⟨fun _ => h, fun _ => ?_⟩
  rw [h.reserve]
  cases checkedSub s.metadata.reserve (UInt64.ofNat bytes) with
  | none =>
    simp only [wp_bind]
    exact wp_mono (stopAutomation_uncharged j h) (fun _ _ h => h) (fun _ _ h => h)
  | some next =>
    simp only [wp_bind, modifyMeta, wp_modify]
    have hinflight : Uncharged s { j with store := { j.store with metadata :=
        { j.store.metadata with reserveInflight := some (id, UInt64.ofNat bytes) } } } :=
      ⟨h.records, h.sealedSegments, h.reserve⟩
    refine wp_mono (stopAt_uncharged _ _ hinflight) (fun _ j h => ?_) (fun _ _ h => h)
    refine wp_mono (stopAt_uncharged _ j h) (fun _ j h => ?_) (fun _ _ h => h)
    exact wp_mono (stopAt_uncharged _ j h) (fun _ _ h => ⟨h, rfl⟩) (fun _ _ h => h)

theorem finishCleanupReservation_headroom (remaining : UInt64)
    (h : Headroom config reserve rotates additional count j) :
    wp (finishCleanupReservation remaining) (fun _ => Headroom config reserve rotates additional count)
      (fun _ _ => False) j := by
  simp only [finishCleanupReservation, wp_bind, modifyMeta, wp_modify]
  exact ⟨h.sameConfig, h.sameReserve, h.room, h.quota⟩

theorem charge_eq {length : Nat} {before next : UInt64} (hsmall : length ≤ recordBound)
    (hcharge : checkedSub before (UInt64.ofNat length) = some next) :
    next.toNat + length = before.toNat := by
  have hlength : (UInt64.ofNat length).toNat = length := by
    rw [UInt64.toNat_ofNat']
    exact Nat.mod_eq_of_lt (by rw [recordBound] at hsmall; omega)
  unfold checkedSub at hcharge
  split at hcharge
  next hle =>
    obtain rfl := Option.some.inj hcharge
    rw [UInt64.toNat_sub_of_le _ _ hle, hlength]
    rw [UInt64.le_iff_toNat_le, hlength] at hle
    omega
  · cases hcharge

theorem Within.pay {j' : WitnessJournal} {key : UInt64} {value : Bytes} {next : UInt64}
    (h : Within config j.store.metadata.reserve j)
    (hnext : next.toNat + value.length = j.store.metadata.reserve.toNat)
    (hfits : recoveryFits config j.store value.length = true) (hconfig : j'.config = config)
    (hrecords : j'.store.records = j.store.records.put key value)
    (hsealed : j'.store.sealedSegments = j.store.sealedSegments)
    (hreserve : j'.store.metadata.reserve = next) (hroom : j'.store.bytes ≤ config.databaseLimit) :
    Headroom config next true 0 0 j' := by
  have hactive : j'.store.activeBytes ≤ j.store.activeBytes + value.length := by
    rw [Store.activeBytes, hrecords]
    exact Tree.sum_put_le List.length _ _ _
  have hsize : j'.store.records.size ≤ j.store.records.size + 1 := by
    rw [hrecords]
    exact Tree.size_put_le _ _ _
  have hframes : rotationFrames config _ _ ≤ rotationFrames config _ _ :=
    rotationFrames_mono hactive hsize
  have hold := bytes_eq j.store
  have hnew : j'.store.bytes = j'.store.activeBytes + j.store.sealedBytes := by
    rw [bytes_eq, Store.sealedBytes, hsealed]
    rfl
  have hquota := h.quota
  refine ⟨hconfig, hreserve, hroom, ?_⟩
  simp only [recoveryFits, decide_eq_true_eq] at hfits
  simp only [if_true, Nat.add_zero]
  omega

end Journal

def recoveryLength (journalId : Id) (rs : List WitnessRecord) : Nat :=
  (rs.map fun r => if r.stage = .recovery then (recordLayout journalId r).length else 0).sum

structure Accounted (sha256 : Hasher) (config : JournalConfig) (l : Ledger)
    (j : WitnessJournal) : Prop where
  refines : Refines sha256 config l j
  within : Within config j.store.metadata.reserve j
  charged : j.store.metadata.reserve.toNat + recoveryLength config.journalId l.entries
    = config.cleanupReserveBytes.toNat

section Accounts
variable {sha256 : Hasher} {config : JournalConfig} {l l' : Ledger} {j : WitnessJournal}

theorem recoveryLength_append (journalId : Id) (rs rs' : List WitnessRecord) :
    recoveryLength journalId (rs ++ rs') = recoveryLength journalId rs + recoveryLength journalId rs' := by
  simp [recoveryLength]

theorem Ledger.Step.recoveryLength_eq {journalId : Id} {epoch : UInt64} {e : LedgerEvent}
    (h : Ledger.Step sha256 journalId epoch e l l') (he : ∀ id, e ≠ .recovered id) :
    recoveryLength journalId l'.entries = recoveryLength journalId l.entries := by
  cases h with
  | recovered => exact absurd rfl (he _)
  | denied stage answer deniedStage =>
    simp [recoveryLength, stage, deniedStage]
  | received stage => simp [recoveryLength, stage]
  | decided stage => simp [recoveryLength, stage]
  | outcome stage => simp [recoveryLength, stage]
  | unknown stage => simp [recoveryLength, stage]
  | published stage => simp [recoveryLength, stage]

theorem Operation.Moves.recoveryLength_eq {journalId : Id} {op : Operation}
    (h : op.Moves sha256 journalId l l') (hop : ∀ id, .recovered id ∉ op.events) :
    recoveryLength journalId l'.entries = recoveryLength journalId l.entries := by
  cases h with
  | idle => rfl
  | commit mem step => exact step.recoveryLength_eq fun id he => hop id (he ▸ mem)
  | advance => rfl

theorem Refines.recoveryBytes_eq (h : Refines sha256 config l j) :
    recoveryBytes j = recoveryLength config.journalId l.entries := by
  have hvalid := h.represents.wellFormed.valid
  rw [recoveryBytes, h.records_eq]
  clear h
  generalize l.entries = entries at hvalid ⊢
  induction entries with
  | nil => rfl
  | cons r rs ih =>
    have hr : decodeRecord (recordLayout config.journalId r) = _ :=
      decodeRecord_recordLayout (hvalid r List.mem_cons_self)
    have hrest := ih fun x hx => hvalid x (List.mem_cons_of_mem _ hx)
    simp only [recoveryLength, List.map_cons, List.sum_cons, hr] at hrest ⊢
    rw [hrest]
    rfl

theorem Accounted.uncharged {j' : WitnessJournal} (h : Accounted sha256 config l j)
    (hr : Refines sha256 config l j') (hu : Uncharged j.store j') : Accounted sha256 config l j' := by
  have hbytes : j'.store.bytes = j.store.bytes := by
    rw [Store.bytes, hu.records, hu.sealedSegments]
    rfl
  refine ⟨hr, ⟨hr.sameConfig, rfl, hr.room, ?_⟩, ?_⟩
  · rw [hbytes, hu.reserve]
    exact h.within.quota
  · rw [hu.reserve]
    exact h.charged

structure Paid (config : JournalConfig) (s : Store) (record : WitnessRecord) (reserveAfter : UInt64)
    (j : WitnessJournal) : Prop where
  stage : record.stage = .recovery
  paid : reserveAfter.toNat + (recordLayout config.journalId record).length
    = s.metadata.reserve.toNat
  records : j.store.records
    = s.records.put record.sequence (recordLayout config.journalId record)
  sealedSegments : j.store.sealedSegments = s.sealedSegments
  reserve : j.store.metadata.reserve = reserveAfter

theorem Paid.total {record : WitnessRecord} {reserveAfter : UInt64} {j' : WitnessJournal}
    (h : Paid config j.store record reserveAfter j')
    (hcharged : j.store.metadata.reserve.toNat + recoveryLength config.journalId l.entries
      = config.cleanupReserveBytes.toNat) :
    reserveAfter.toNat + recoveryLength config.journalId (l.entries ++ [record])
      = config.cleanupReserveBytes.toNat := by
  have hnew : recoveryLength config.journalId [record]
      = (recordLayout config.journalId record).length := by
    simp [recoveryLength, h.stage]
  have hpaid := h.paid
  rw [recoveryLength_append, hnew]
  omega

theorem completeRecoveryAt_rule {C : WitnessJournal → Prop} (epoch : UInt64) (id : OperationId)
    (record : WitnessRecord) (h : Refines sha256 config l j)
    (hback : ∀ j', Refines sha256 config l j' → Uncharged j.store j' → C j')
    (hpaid : ∀ l₂ reserveAfter j',
      l₂.entries = l.entries ++ [l.stamp sha256 config.journalId epoch record] →
      Refines sha256 config l₂ j' →
      Paid config j.store (l.stamp sha256 config.journalId epoch record) reserveAfter j' →
      wp (flush .outcome id)
        (fun _ j => wp (finishCleanupReservation reserveAfter)
          (fun _ j => wp postAckRotation (fun _ => C) (fun _ => C) j) (fun _ => C) j)
        (fun _ j => wp stopAutomation (fun _ => C) (fun _ => C) j) j') :
    wp (completeRecoveryAt sha256 epoch id record) (fun _ => C) (fun _ => C) j := by
  have hkept : C j := hback j h ⟨rfl, rfl, rfl⟩
  have hfailed : ∀ j', Refines sha256 config l j' ∧ Uncharged j.store j' → C j' :=
    fun j' h' => hback j' h'.1 h'.2
  simp only [completeRecoveryAt, wp_bind, wp_rejectIf, wp_get, wp_okOr, wp_ofExcept, wp_transaction,
    wp_attempt, wp_throw, Except.ite_error_eq_ok, ne_eq, not_or, not_not]
  refine ⟨fun _ => hkept, fun _ => ⟨fun _ => hkept, fun hstage => ⟨fun stateBytes hget =>
    ⟨fun state hstate => ⟨fun _ => hkept, fun _ => ?_⟩, fun _ => hkept⟩, fun _ => hkept⟩⟩⟩
  have hoperation := h.operation_eq hget hstate
  simp only [h.stamp_eq epoch record]
  simp only [h.next_eq epoch record, h.sameConfig]
  refine ⟨fun bytes hbytes => ⟨fun _ => hkept, fun _ => ?_⟩, fun _ _ => hkept⟩
  obtain ⟨hvalid, -, rfl⟩ := (encodeRecord_ok_iff _ _ _).mp hbytes
  refine wp_mono (wp_and (beginCleanupReservation_quiet _ _ sha256 config l j h)
    (beginCleanupReservation_uncharged _ _ ⟨rfl, rfl, rfl⟩)) ?_ (fun _ => hfailed)
  rintro reserveAfter j' ⟨hr, hu, hcharge⟩
  refine wp_mono (wp_and (stopAt_quiet _ sha256 config l j' hr) (stopAt_uncharged _ j' hu)) ?_
    (fun _ => hfailed)
  rintro _ j' ⟨hr, hu⟩
  refine wp_mono (wp_and (stopAt_quiet _ sha256 config l j' hr) (stopAt_uncharged _ j' hu)) ?_
    (fun _ => hfailed)
  rintro _ j' ⟨hr, hu⟩
  refine ⟨?_, fun _ _ => hback j' hr hu⟩
  rintro s ⟨-, hfresh, hs⟩
  refine ⟨fun hroom => ?_, fun _ => hback j' hr hu⟩
  have hs := Except.ok.inj hs
  have hcommit := hr.commit hs hroom (hr.fresh hfresh) hvalid rfl rfl rfl rfl
    (hr.put_operation id _) (hr.remove_pending id) (fun _ _ => hr.required hoperation)
  have hrecords : s.records = j.store.records.put
      (l.stamp sha256 config.journalId epoch record).sequence
      (recordLayout config.journalId (l.stamp sha256 config.journalId epoch record)) := by
    rw [← hs, ← hu.records]
  have hsealed : s.sealedSegments = j.store.sealedSegments := by
    rw [← hs]
    exact hu.sealedSegments
  exact hpaid _ reserveAfter _ rfl hcommit ⟨hstage, charge_eq (length_recordLayout_le _ _) hcharge,
    hrecords, hsealed, by rw [← hs]⟩

theorem completeRecoveryAt_accounted (epoch : UInt64) (id : OperationId) (record : WitnessRecord)
    (h : Accounted sha256 config l j)
    (hfits : recoveryFits config j.store (recordLayout config.journalId record).length = true) :
    wp (completeRecoveryAt sha256 epoch id record)
      (fun _ j' => ∃ l', Accounted sha256 config l' j')
      (fun _ j' => ∃ l', Accounted sha256 config l' j') j := by
  refine completeRecoveryAt_rule epoch id record h.refines
    (fun _ hr hu => ⟨l, h.uncharged hr hu⟩) fun l₂ reserveAfter j' hentries hr hpaid => ?_
  have hlength : (recordLayout config.journalId (l.stamp sha256 config.journalId epoch record)).length
      = (recordLayout config.journalId record).length := length_restamped _ _ _ _ _
  rw [← hlength] at hfits
  have hhead : Headroom config reserveAfter true 0 0 j' :=
    h.within.pay hpaid.paid hfits hr.sameConfig hpaid.records hpaid.sealedSegments hpaid.reserve
      hr.room
  have hcharged := hpaid.total h.charged
  have hdone : ∀ {l' : Ledger} {j : WitnessJournal}, l'.entries = l₂.entries →
      Refines sha256 config l' j ∧ Within config reserveAfter j →
      ∃ l', Accounted sha256 config l' j := by
    intro l' j hl' hj
    rw [← hentries, ← hl'] at hcharged
    exact ⟨l', hj.1, hj.2.sameReserve.symm ▸ hj.2, hj.2.sameReserve.symm ▸ hcharged⟩
  refine wp_mono (wp_and (flush_quiet _ _ sha256 config _ _ hr)
    (flush_preserves Headroom.of_faults _ _ _ hhead)) ?_ ?_
  · rintro _ j ⟨hr, hhead⟩
    refine wp_mono (wp_and (finishCleanupReservation_quiet _ sha256 config _ _ hr)
      (finishCleanupReservation_headroom _ hhead)) ?_ (fun _ _ hf => hf.2.elim)
    rintro _ j ⟨hr, hhead⟩
    exact wp_mono (wp_and (postAckRotation_quiet sha256 config _ _ hr) (postAckRotation_within hhead))
      (fun _ _ => hdone rfl) (fun _ _ => hdone rfl)
  · rintro _ j ⟨hr, hhead⟩
    have hstop : Preserves (Within config reserveAfter) stopAutomation :=
      preserves_modify fun _ h => ⟨h.sameConfig, h.sameReserve, h.room, h.quota⟩
    exact wp_mono (wp_and (stopAutomation_quiet sha256 config _ _ hr) (hstop j hhead.within))
      (fun _ _ => hdone rfl) (fun _ _ => hdone rfl)

theorem Operation.apply_accounted (op : Operation) (h : Accounted sha256 config l j)
    (hfits : op.fits j = true) : ∃ l', Accounted sha256 config l' (op.apply sha256 j) := by
  have hreserve : j.store.metadata.reserve.toNat ≤ config.cleanupReserveBytes.toNat := by
    rw [← h.charged]
    exact Nat.le_add_right _ _
  have hmoved : (∀ id, .recovered id ∉ op.events) →
      Within config j.store.metadata.reserve (op.apply sha256 j) →
      ∃ l', Accounted sha256 config l' (op.apply sha256 j) := by
    intro hop hwithin
    obtain ⟨l', hl', hmoves⟩ := op.apply_refines h.refines
    refine ⟨l', hl', hwithin.sameReserve.symm ▸ hwithin, ?_⟩
    rw [hwithin.sameReserve, hmoves.recoveryLength_eq hop]
    exact h.charged
  have hcall : ∀ {α : Type} {m : Journaled α}, op.apply sha256 j = m.after j →
      wp m (fun _ => Within config j.store.metadata.reserve)
        (fun _ => Within config j.store.metadata.reserve) j →
      Within config j.store.metadata.reserve (op.apply sha256 j) := by
    intro α m happly hm
    rw [happly]
    exact after_of_wp hm
  cases op with
  | appendReceived id generation recipe record =>
    simp only [Operation.fits, h.refines.sameConfig] at hfits
    refine hmoved (by simp [Operation.events]) (hcall
      (m := Journal.appendReceived sha256 id generation recipe record) rfl ?_)
    simp only [Journal.appendReceived, wp_bind, wp_get]
    exact appendReceivedAt_within hreserve j.epoch id generation recipe record h.within hfits
  | appendDecision id record =>
    simp only [Operation.fits, h.refines.sameConfig] at hfits
    refine hmoved (by simp [Operation.events]) (hcall (after_discard _ j) ?_)
    simp only [Journal.appendDecision, wp_bind, wp_get]
    exact appendDecisionAt_within hreserve j.epoch id record h.within hfits
  | deny id decision denied =>
    simp only [Operation.fits, h.refines.sameConfig] at hfits
    refine hmoved (by simp [Operation.events]) (hcall
      (m := Journal.deny sha256 id decision denied) rfl ?_)
    simp only [Journal.deny, wp_bind, wp_get]
    exact denyAt_within hreserve j.epoch id decision denied h.within hfits
  | complete intent record =>
    refine hmoved (by simp [Operation.events]) (hcall
      (m := Journal.complete sha256 intent record) rfl ?_)
    simp only [Journal.complete, wp_bind, wp_get]
    exact completeAt_within hreserve j.epoch intent record h.within hfits
  | recordOutcomeUnknown id record =>
    simp only [Operation.fits, h.refines.sameConfig] at hfits
    refine hmoved (by simp [Operation.events]) (hcall
      (m := Journal.recordOutcomeUnknown sha256 id record) rfl ?_)
    simp only [Journal.recordOutcomeUnknown, wp_bind, wp_get]
    exact recordOutcomeUnknownAt_within hreserve j.epoch id record h.within hfits
  | completeRecovery id record =>
    simp only [Operation.fits, h.refines.sameConfig] at hfits
    have haccounted := completeRecoveryAt_accounted j.epoch id record h hfits
    let P (j : WitnessJournal) := ∃ l', Accounted sha256 config l' j
    have hwp : wp (Journal.completeRecovery sha256 id record) (fun _ => P) (fun _ => P) j := by
      simp only [Journal.completeRecovery, wp_bind, wp_get]
      exact haccounted
    exact after_of_wp hwp
  | appendCheckpointPublication digest record =>
    simp only [Operation.fits, h.refines.sameConfig] at hfits
    refine hmoved (by simp [Operation.events]) (hcall
      (m := Journal.appendCheckpointPublication sha256 digest record) rfl ?_)
    simp only [Journal.appendCheckpointPublication, wp_bind, wp_rejectIf, wp_ofExcept]
    exact ⟨fun _ => h.within, fun _ => ⟨fun _ _ => publishLocked_within hreserve digest _ h.within hfits,
      fun _ _ => h.within⟩⟩
  | maintain =>
    simp only [Operation.fits, h.refines.sameConfig] at hfits
    exact hmoved (by simp [Operation.events]) (hcall (m := Journal.maintain) rfl
      (maintain_within h.within hfits))
  | advanceEpoch expected =>
    refine hmoved (by simp [Operation.events]) (hcall (after_discard _ j) ?_)
    simp only [Journal.advanceEpoch, wp_bind, wp_get, wp_rejectIf, wp_okOr, modifyMeta, wp_modify,
      wp_pure]
    have hw := h.within
    exact ⟨fun _ => hw, fun _ => ⟨fun _ _ => ⟨hw.sameConfig, hw.sameReserve, hw.room, hw.quota⟩,
      fun _ => hw⟩⟩
  | failOnce point =>
    have hw := h.within
    exact hmoved (by simp [Operation.events]) ⟨hw.sameConfig, hw.sameReserve, hw.room, hw.quota⟩

theorem runJournal_accounted (ops : List Operation) (h : Accounted sha256 config l j)
    (hfits : fitsRun sha256 ops j = true) :
    ∃ l', Accounted sha256 config l' (runJournal sha256 ops j) := by
  induction ops generalizing l j with
  | nil => exact ⟨l, h⟩
  | cons op ops ih =>
    rw [fitsRun, Bool.and_eq_true] at hfits
    obtain ⟨l', h'⟩ := op.apply_accounted h hfits.1
    exact ih h' hfits.2

theorem create_accounted (sha256 : Hasher) (config : JournalConfig)
    (faults : Finset FaultPoint)
    (hreserve : config.cleanupReserveBytes ≤ config.maxJournalBytes) :
    Accounted sha256 config .empty (.create config faults) := by
  have hempty : (WitnessJournal.create config faults).store.bytes = 0 := rfl
  refine ⟨create_refines sha256 config faults, ⟨rfl, rfl, ?_, ?_⟩, rfl⟩
  · rw [hempty]
    exact Nat.zero_le _
  · rw [hempty, Nat.zero_add]
    exact UInt64.le_iff_toNat_le.mp hreserve

end Accounts

/-- In every run in which the frames of the seals fit beside what is left of the reserve, the
stored bytes stay below the limit of the journal, and below what the reserve leaves of it once
the recovery records are added. -/
theorem run_within_quota (sha256 : Hasher) (config : JournalConfig)
    (faults : Finset FaultPoint) (ops : List Operation)
    (hreserve : config.cleanupReserveBytes ≤ config.maxJournalBytes)
    (hfits : fitsRun sha256 ops (.create config faults) = true) :
    (runJournal sha256 ops (.create config faults)).store.bytes ≤ config.maxJournalBytes.toNat ∧
      (runJournal sha256 ops (.create config faults)).store.bytes
        ≤ config.maxJournalBytes.toNat - config.cleanupReserveBytes.toNat
          + recoveryBytes (runJournal sha256 ops (.create config faults)) := by
  obtain ⟨l, h⟩ := runJournal_accounted ops (create_accounted sha256 config faults hreserve) hfits
  have hquota := h.within.quota
  have hcharged := h.charged
  have hle := UInt64.le_iff_toNat_le.mp hreserve
  rw [h.refines.recoveryBytes_eq]
  omega

def limited (maxJournalBytes : UInt64) : JournalConfig :=
  { JournalConfig.new (.zero 16) .required with
    cleanupReserveBytes := 0
    maxJournalBytes := maxJournalBytes }

def receivedOnce : Operation :=
  .appendReceived (.fill 16 7) 1 plainRecipe
    (plainRecord (.fill 16 7) (.fill 16 1) .requestReceived)

theorem run_within_quota_maintained :
    (runJournal Sha256.sha256 [receivedOnce, .maintain] (.create (limited 400) ∅)).store.bytes = 316 ∧
      (runJournal Sha256.sha256 [receivedOnce, .maintain] (.create (limited 400) ∅)).store.bytes
        ≤ (limited 400).maxJournalBytes.toNat ∧
      (runJournal Sha256.sha256 [receivedOnce, .maintain] (.create (limited 400) ∅)).store.bytes
        ≤ (limited 400).maxJournalBytes.toNat - (limited 400).cleanupReserveBytes.toNat
          + recoveryBytes (runJournal Sha256.sha256 [receivedOnce, .maintain]
            (.create (limited 400) ∅)) := by
  have hrun : (runJournal Sha256.sha256 [receivedOnce, .maintain]
        (.create (limited 400) ∅)).store.bytes = 316 ∧
      fitsRun Sha256.sha256 [receivedOnce, .maintain] (.create (limited 400) ∅) = true := by
    decide +kernel
  exact ⟨hrun.1, run_within_quota _ _ _ _ (by decide) hrun.2⟩

/-- A record that fills the journal passes the check; its frame goes past the limit. -/
theorem maintain_exceeds_quota :
    (runJournal Sha256.sha256 [receivedOnce] (.create (limited 310) ∅)).store.bytes ≤ 310 ∧
      ¬ (runJournal Sha256.sha256 [receivedOnce, .maintain] (.create (limited 310) ∅)).store.bytes
        ≤ (limited 310).maxJournalBytes.toNat := by
  decide +kernel

end Ferrocrate.Witness

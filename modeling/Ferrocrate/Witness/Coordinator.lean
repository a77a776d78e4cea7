import Ferrocrate.Lib.Process
import Ferrocrate.Witness.Checkpoint
import Ferrocrate.Witness.Journal.Run

/-! The checkpoint coordinator (`witness/checkpoint_coordinator.rs`): it captures the head of
the journal, publishes a signed checkpoint and binds it by a record, with a sidecar that says
how far it came. Each call is a task whose actions others can come between. -/
namespace Ferrocrate.Witness
open Lib Lib.Program

inductive PendingState where
  | prepared | published | bound | bindingFailed
deriving DecidableEq

inductive Recoverability where
  | retryable | indeterminate | operatorRequired
deriving DecidableEq

structure PendingBinding where
  checkpoint : Checkpoint
  eventId : Id
  expectedEpoch : UInt64
  expectedSequence : UInt64
  recordBytes : Bytes
  state : PendingState
  recoverability : Recoverability
deriving DecidableEq

inductive PublicationOutcome where
  | bound (checkpoint : Checkpoint)
  | pendingBinding (pending : PendingBinding)
deriving DecidableEq

def nonretryable : JournalError → Bool
  | .disabled | .journalMismatch | .proofMismatch | .bindingMismatch | .invalidStage
  | .alreadyComplete | .notPending => true
  | _ => false

def checkpointBindingDomain : Bytes := "FERROCRATE-CHECKPOINT-BINDING-V2".toUTF8.toList

def bindingIdentity (sha256 : Hasher) (digest : Digest) : Digest :=
  sha256 (checkpointBindingDomain ++ digest.val)

def bindingEventId (sha256 : Hasher) (cp : Checkpoint) : Id :=
  (bindingIdentity sha256 (sha256 cp.encode)).first 16 FixedBytes.sixteen_le

def prepareBinding (sha256 : Hasher) (checkpoint : Checkpoint) (record : WitnessRecord)
    (digest : Digest) : Except CheckpointError WitnessRecord :=
  match checkedAdd checkpoint.head.sequence 1 with
  | none => .error .rollback
  | some sequence =>
    let identity := bindingIdentity sha256 digest
    .ok { record with
      eventId := identity.first 16 FixedBytes.sixteen_le
      requestId := identity.after 16
      epoch := checkpoint.head.epoch
      sequence := sequence
      previousHash := checkpoint.head.hash }

def PendingBinding.new (checkpoint : Checkpoint) (record : WitnessRecord) :
    Except CheckpointError PendingBinding :=
  match encodeRecord checkpoint.head.journalId record with
  | .error _ => .error .invalidArtifact
  | .ok bytes => .ok {
      checkpoint := checkpoint
      eventId := record.eventId
      expectedEpoch := record.epoch
      expectedSequence := record.sequence
      recordBytes := bytes.bytes
      state := .prepared
      recoverability := .retryable }

def PendingState.code : PendingState → UInt8
  | .prepared => 1 | .published => 2 | .bound => 3 | .bindingFailed => 4

def Recoverability.code : Recoverability → UInt8
  | .retryable => 1 | .indeterminate => 2 | .operatorRequired => 3

def PendingState.ofCode : UInt8 → Except CheckpointError PendingState
  | 1 => .ok .prepared | 2 => .ok .published | 3 => .ok .bound | 4 => .ok .bindingFailed
  | _ => .error .invalidArtifact

def Recoverability.ofCode : UInt8 → Except CheckpointError Recoverability
  | 1 => .ok .retryable | 2 => .ok .indeterminate | 3 => .ok .operatorRequired
  | _ => .error .invalidArtifact

def pendingMagic : Bytes := "FPEND002".toUTF8.toList
def maxPendingBytes : Nat := maxCheckpointBytes + maxRecordBytes + 50

section Sidecar
variable (sha256 : Hasher)

def pendingBody (pending : PendingBinding) : Bytes :=
  pendingMagic ++ ([pending.state.code] ++ ([pending.recoverability.code]
  ++ (u32Be pending.checkpoint.encode.length ++ (u32Be pending.recordBytes.length
  ++ (pending.checkpoint.encode ++ pending.recordBytes)))))

def encodePending (pending : PendingBinding) : Bytes :=
  pendingBody pending ++ (sha256 (pendingBody pending)).val

def decodePending (bytes : Bytes) : Except CheckpointError PendingBinding :=
  if bytes.length < 50 ∨ bytes.take 8 ≠ pendingMagic ∨ bytes.length > maxPendingBytes then
    .error .invalidArtifact
  else do
    let state ← PendingState.ofCode (bytes.getD 8 0)
    let recoverability ← Recoverability.ofCode (bytes.getD 9 0)
    let cpLen := ofBe ((bytes.drop 10).take 4)
    let recordLen := ofBe ((bytes.drop 14).take 4)
    let stop := 18 + cpLen + recordLen
    if stop + 32 ≠ bytes.length ∨ (sha256 (bytes.take stop)).val ≠ bytes.drop stop then
      .error .invalidArtifact
    else do
      let checkpoint ← Checkpoint.decode ((bytes.drop 18).take cpLen)
      let recordBytes := (bytes.drop (18 + cpLen)).take recordLen
      let decoded ← (decodeRecord recordBytes).mapError fun _ => CheckpointError.invalidArtifact
      let expected ← PendingBinding.new checkpoint decoded.record
      if expected.recordBytes ≠ recordBytes then .error .invalidArtifact
      else .ok { expected with state := state, recoverability := recoverability }

end Sidecar

structure System where
  journal : WitnessJournal
  sidecar : Option Bytes
  artifact : Option Bytes

abbrev Stored (α : Type) := Program CheckpointError System α

namespace Coordinator
variable (sha256 : Hasher) (ed : Ed25519)

def onJournal {α : Type} (m : Journaled α) : Stored (Except JournalError α) := fun s =>
  (.ok (m s.journal).1, { s with journal := (m s.journal).2 })

def tryJournal {α : Type} (m : Journaled α) : Stored α := do
  let result ← onJournal m
  ofExcept .journal result

def checkpointPreflight : Journaled Unit := do
  let j ← get
  rejectIf (j.config.mode = .disabled) .disabled

def currentEpoch : Stored UInt64 := do
  let s ← get
  pure s.journal.epoch

def secureRead (file : Option Bytes) (bound : Nat) : Except CheckpointError (Option Bytes) :=
  match file with
  | none => .ok none
  | some bytes => if bytes.length > bound then .error .invalidArtifact else .ok (some bytes)

def pendingBinding (s : System) : Except CheckpointError (Option PendingBinding) := do
  match ← secureRead s.sidecar maxPendingBytes with
  | none => .ok none
  | some bytes => do
    let pending ← decodePending sha256 bytes
    match ← secureRead s.artifact maxCheckpointBytes with
    | some artifact =>
      if artifact = pending.checkpoint.encode then .ok (some pending) else .error .rollback
    | none => if pending.state = .prepared then .ok (some pending) else .error .rollback

def preflight : Stored Unit := do
  let s ← get
  let pending ← ofExcept id (pendingBinding sha256 s)
  rejectIf (pending.isSome = true) .pendingExists

def publish (checkpoint : Checkpoint) : Stored Unit := do
  let bytes := checkpoint.encode
  rejectIf (bytes.length > maxCheckpointBytes) .invalidArtifact
  modify fun s => { s with artifact := some bytes }

def persistPending (pending : PendingBinding) : Stored Unit := do
  let s ← get
  rejectIf (s.sidecar.isSome = true) .pendingExists
  set { s with sidecar := some (encodePending sha256 pending) }

def persistPendingReplace (pending : PendingBinding) : Stored Unit :=
  modify fun s => { s with sidecar := some (encodePending sha256 pending) }

def persistFailed (pending : PendingBinding) : Stored Unit :=
  persistPendingReplace sha256
    { pending with state := .bindingFailed, recoverability := .operatorRequired }

def clearPending : Stored Unit := modify fun s => { s with sidecar := none }

inductive Moment where
  | preflight | journalPreflight | flushedHead
  | persistPrepared (head : FlushedHead) (eventId : Id)
  | publish | persistPublished | advanceEpoch | currentEpoch | append | persistOutcome | clear
  | pendingBinding

abbrev Coordinated (α : Type) := Task CheckpointError System Moment α

open Task

def capture : Coordinated Journal.JournalHead := do
  atomically .preflight (preflight sha256)
  atomically .journalPreflight (tryJournal checkpointPreflight)
  atomically .flushedHead (tryJournal Journal.flushedHead)

def publishPrepared (cp : Checkpoint) (record : WitnessRecord) :
    Coordinated (WitnessRecord × PendingBinding) := do
  let prepared ← Task.ofExcept (prepareBinding sha256 cp record (sha256 cp.encode))
  let pending ← Task.ofExcept (PendingBinding.new cp prepared)
  atomically (.persistPrepared cp.head pending.eventId) (persistPending sha256 pending)
  atomically .publish (publish cp)
  let pending := { pending with state := .published }
  atomically .persistPublished (persistPendingReplace sha256 pending)
  pure (prepared, pending)

def settleBound (pending : PendingBinding) : Coordinated Unit := do
  atomically .persistOutcome (persistPendingReplace sha256 { pending with state := .bound })
  atomically .clear clearPending

def bindPublished (cp : Checkpoint) (prepared : WitnessRecord) (pending : PendingBinding) :
    Coordinated PublicationOutcome := do
  let result ← atomically .append
    (onJournal (Journal.appendCheckpointPublication sha256 (sha256 cp.encode) prepared))
  match result with
  | .ok _ => do
    settleBound sha256 pending
    pure (.bound cp)
  | .error (.indeterminate _) => do
    let pending := { pending with recoverability := .indeterminate }
    atomically .persistOutcome (persistPendingReplace sha256 pending)
    pure (.pendingBinding pending)
  | .error e => do
    runIf (nonretryable e = true) (atomically .persistOutcome (persistFailed sha256 pending))
    throw (.journal e)

def capturePublishBind (nowSecs : UInt64) (key : ed.SigningKey) (predecessor : Option Checkpoint)
    (record : Checkpoint → WitnessRecord) : Coordinated PublicationOutcome := do
  let head ← capture sha256
  let cp ← Task.ofExcept (match predecessor with
    | some previous => Checkpoint.signAfter sha256 ed (.ofJournal head) nowSecs previous key
    | none => Checkpoint.sign sha256 ed (.ofJournal head) nowSecs key .periodic)
  let (prepared, pending) ← publishPrepared sha256 cp (record cp)
  bindPublished sha256 cp prepared pending

def captureRotatePublishBind (nowSecs : UInt64) (oldKey newKey : ed.SigningKey)
    (predecessor : Checkpoint) (record : Checkpoint → WitnessRecord) :
    Coordinated PublicationOutcome := do
  let head ← capture sha256
  let cp := Checkpoint.rotateAfter sha256 ed (.ofJournal head) nowSecs predecessor oldKey newKey
  let (prepared, pending) ← publishPrepared sha256 cp (record cp)
  bindPublished sha256 cp prepared pending

def captureResetPublishBind (nowSecs : UInt64) (newKey : ed.SigningKey) (predecessor : Checkpoint)
    (record : Checkpoint → WitnessRecord) : Coordinated PublicationOutcome := do
  let current ← capture sha256
  let nextEpoch ← Task.ofExcept (if current.epoch ≠ predecessor.head.epoch then .error .rollback
    else match checkedAdd current.epoch 1 with
    | none => .error .rollback
    | some next => .ok next)
  let cp ← Task.ofExcept (Checkpoint.trustResetAfter sha256 ed
    ⟨current.journalId, nextEpoch, current.sequence, current.hash⟩ nowSecs predecessor newKey)
  let (prepared, pending) ← publishPrepared sha256 cp (record cp)
  let advanced ← atomically .advanceEpoch (onJournal (Journal.advanceEpoch current.epoch))
  match advanced with
  | .error e => do
    runIf (e = .proofMismatch) (atomically .persistOutcome (persistFailed sha256 pending))
    throw (.journal e)
  | .ok _ => do
    let epoch ← atomically .currentEpoch currentEpoch
    if epoch ≠ cp.head.epoch then do
      atomically .persistOutcome (persistFailed sha256 pending)
      throw (.journal .proofMismatch)
    else bindPublished sha256 cp prepared pending

def rebind (pending : PendingBinding) (record : WitnessRecord) : Coordinated Unit := do
  let checkpoint := pending.checkpoint
  let epoch ← atomically .currentEpoch currentEpoch
  if epoch ≠ checkpoint.head.epoch then do
    atomically .persistOutcome (persistFailed sha256 pending)
    throw (.journal .proofMismatch)
  else do
    let prepared ← Task.ofExcept (prepareBinding sha256 checkpoint record (sha256 checkpoint.encode))
    Task.ofExcept (if prepared.eventId ≠ pending.eventId ∨ prepared.epoch ≠ pending.expectedEpoch
      ∨ prepared.sequence ≠ pending.expectedSequence then .error .rollback else .ok ())
    atomically .append
      (tryJournal (Journal.appendCheckpointPublication sha256 (sha256 checkpoint.encode) prepared))
    settleBound sha256 pending

def reconcileBinding (pending : PendingBinding) (record : WitnessRecord) : Coordinated Unit := do
  let checkpoint := pending.checkpoint
  if pending.state = .bindingFailed then throw .bindingFailed
  else do
    let current ← atomically .flushedHead (tryJournal Journal.flushedHead)
    if current.journalId ≠ checkpoint.head.journalId then throw .untrusted
    else if checkpoint.kind = .trustReset
        ∧ checkedAdd current.epoch 1 = some checkpoint.head.epoch then do
      let advanced ← atomically .advanceEpoch (onJournal (Journal.advanceEpoch current.epoch))
      match advanced with
      | .error e => do
        runIf (e = .proofMismatch) (atomically .persistOutcome (persistFailed sha256 pending))
        throw (.journal e)
      | .ok _ => rebind sha256 pending record
    else rebind sha256 pending record

def reconcilePending : Coordinated Checkpoint := do
  let found ← atomically .pendingBinding (do
    let s ← get
    let found ← ofExcept id (pendingBinding sha256 s)
    okOr found .invalidArtifact)
  if found.state = .bindingFailed then throw .bindingFailed
  else do
    runIf (found.state = .prepared) do
      atomically .publish (publish found.checkpoint)
      atomically .persistPublished
        (persistPendingReplace sha256 { found with state := .published })
    let pending := if found.state = .prepared then { found with state := .published } else found
    let decoded ← Task.ofExcept
      ((decodeRecord pending.recordBytes).mapError fun _ => CheckpointError.invalidArtifact)
    reconcileBinding sha256 pending decoded.record
    pure pending.checkpoint

end Coordinator
end Ferrocrate.Witness

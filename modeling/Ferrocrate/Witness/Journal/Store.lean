import Mathlib.Data.Finset.Basic
import Ferrocrate.Lib.Tree
import Ferrocrate.Witness.Encoding
import Ferrocrate.Witness.OperationState
import Ferrocrate.Witness.Recovery

/-! The state of a witness journal: the trees of its database, the files beside it and
what the open handle keeps in memory (`witness/journal.rs`, `journal/storage.rs`,
`journal/types.rs`). -/
namespace Ferrocrate.Witness
open Lib Lib.Program

inductive JournalMode where
  | disabled
  | required
deriving DecidableEq

inductive FlushBoundary where
  | reserve | received | decision | outcome
deriving DecidableEq

inductive FaultPoint where
  | beforeTransaction (boundary : FlushBoundary)
  | transaction (boundary : FlushBoundary)
  | beforeFlush (boundary : FlushBoundary)
  | duringFlush (boundary : FlushBoundary)
  | afterFlush (boundary : FlushBoundary)
  | rotationSeal
  | checkpointBindingRejected
deriving DecidableEq

inductive JournalError where
  | journalMismatch | duplicateOperation | duplicateEvent | notPending | alreadyComplete
  | proofMismatch | bindingMismatch
  | indeterminate (operationId : OperationId)
  | automationStopped | quotaExceeded | oversizedRecord | rotationUnavailable
  | unavailableBeforeVisibility | disabled | invalidStage | corrupt | readerStale
  | io | sqlite
  | record (error : WitnessError)
deriving DecidableEq

def sqliteLimit : Nat := 2 ^ 48

/-- `JournalConfig`, with what the environment sets: the segment limit of the read mirror (a constant
of the source) and the size past which SQLite refuses a transaction (a full disk). -/
structure JournalConfig where
  journalId : Id
  mode : JournalMode
  cleanupReserveBytes : UInt64
  maxJournalBytes : UInt64
  segmentBytes : UInt64
  mirrorSegmentLimit : Nat
  databaseLimit : Nat
  databaseLimit_le : databaseLimit ≤ sqliteLimit

def JournalConfig.new (journalId : Id) (mode : JournalMode) : JournalConfig where
  journalId := journalId
  mode := mode
  cleanupReserveBytes := 64 * 1024
  maxJournalBytes := 64 * 1024 * 1024
  segmentBytes := 8 * 1024 * 1024
  mirrorSegmentLimit := 128 * 1024 * 1024
  databaseLimit := sqliteLimit
  databaseLimit_le := Nat.le_refl _

structure Meta where
  headSequence : UInt64
  headHash : Digest
  epoch : UInt64
  reserve : UInt64
  reserveInflight : Option (OperationId × UInt64)
  automationStopped : Bool
  currentSegment : UInt64
  rotationDeferred : Bool

structure Store where
  records : Tree UInt64 Bytes
  operations : Tree OperationId Bytes
  events : Tree Id UInt64
  pending : Tree OperationId Bytes
  segments : Tree UInt64 (UInt64 × Digest)
  sealedSegments : Tree UInt64 Bytes
  metadata : Meta

structure ReadMirror where
  active : Bytes
  segments : List ((UInt64 × UInt64) × Bytes)
  stale : Bool
  sequence : UInt64

structure WitnessJournal where
  config : JournalConfig
  store : Store
  epoch : UInt64
  faults : Finset FaultPoint
  automationStopped : Bool
  stopMarker : Bool
  reserveFile : UInt64
  mirror : ReadMirror

structure DurableIntent where
  journalId : Id
  epoch : UInt64
  operationId : OperationId
  executionGeneration : UInt64
  pendingGeneration : UInt64
  decisionId : Id
  decisionDigest : Digest
  requestDigest : Digest
  preconditionDigest : Digest
  recoveryRecipeDigest : Digest

abbrev Journaled (α : Type) := Program JournalError WitnessJournal α

namespace WitnessJournal

def readerMagic : Bytes := "FWREAD03".toUTF8.toList

def create (config : JournalConfig) (faults : Finset FaultPoint) : WitnessJournal where
  config := config
  store :=
    { records := .empty
      operations := .empty
      events := .empty
      pending := .empty
      segments := Tree.empty.put 0 (1, .zero 32)
      sealedSegments := .empty
      metadata :=
        { headSequence := 0
          headHash := .zero 32
          epoch := 1
          reserve := config.cleanupReserveBytes
          reserveInflight := none
          automationStopped := false
          currentSegment := 0
          rotationDeferred := false } }
  epoch := 1
  faults := faults
  automationStopped := false
  stopMarker := false
  reserveFile := config.cleanupReserveBytes
  mirror := ⟨readerMagic ++ config.journalId.val, [], false, 0⟩

def reopen (j : WitnessJournal) (faults : Finset FaultPoint) (mirror : ReadMirror) :
    Except JournalError WitnessJournal :=
  if j.stopMarker = true then .error .automationStopped
  else if j.store.metadata.reserveInflight.isSome = true then .error .automationStopped
  else if j.store.metadata.automationStopped = true then .error .automationStopped
  else if j.store.metadata.epoch = 0 then .error .corrupt
  else if j.reserveFile ≠ j.store.metadata.reserve then .error .automationStopped
  else .ok { j with
    epoch := j.store.metadata.epoch
    faults := faults
    automationStopped := false
    mirror := mirror }

def head (j : WitnessJournal) : UInt64 × Digest :=
  (j.store.metadata.headSequence, j.store.metadata.headHash)

end WitnessJournal

def Store.bytes (s : Store) : Nat :=
  (s.records.entries.map (·.2.length)).sum + (s.sealedSegments.entries.map (·.2.length)).sum

namespace Journal

def takeFault (point : FaultPoint) : Journaled Bool := fun j =>
  (.ok (decide (point ∈ j.faults)), { j with faults := j.faults.erase point })

def failAt (point : FaultPoint) (e : JournalError) : Journaled Unit := do
  let hit ← takeFault point
  rejectIf (hit = true) e

def transaction (body : Store → Except JournalError Store) : Journaled Unit := do
  let j ← get
  let store ← ofExcept id (body j.store)
  rejectIf (store.bytes > j.config.databaseLimit) .sqlite
  set { j with store := store }

def modifyMeta (f : Meta → Meta) : Journaled Unit :=
  modify fun j => { j with store := { j.store with metadata := f j.store.metadata } }

def preflight (boundary : FlushBoundary) : Journaled Unit := do
  let j ← get
  rejectIf (j.config.mode = .disabled) .disabled
  failAt (.beforeTransaction boundary) .unavailableBeforeVisibility
  failAt (.transaction boundary) .unavailableBeforeVisibility

def flush (boundary : FlushBoundary) (id : OperationId) : Journaled Unit := do
  failAt (.beforeFlush boundary) (.indeterminate id)
  failAt (.duringFlush boundary) (.indeterminate id)
  failAt (.afterFlush boundary) (.indeterminate id)

/-! Segments and quota, `journal/quota.rs`. -/

def segmentBlob (entries : List (UInt64 × Bytes)) : Bytes :=
  entries.flatMap fun e => u64Be e.1 ++ (u32Be e.2.length ++ e.2)

def sealActiveSegment (force : Bool) : Journaled Unit := do
  failAt .rotationSeal .unavailableBeforeVisibility
  let j ← get
  let entries := j.store.records.entries
  let used := (entries.map (·.2.length)).sum
  if entries = [] ∨ (force = false ∧ used < j.config.segmentBytes.toNat) then
    pure ()
  else do
    let current := j.store.metadata.currentSegment
    let next ← okOr (checkedAdd current 1) .corrupt
    let (sequence, hash) := j.head
    let handoff := (sequence + 1, hash)
    let blob := segmentBlob entries
    transaction fun s =>
      if s.segments.contains next then .error .corrupt
      else if s.sealedSegments.contains current then .error .corrupt
      else .ok { s with
        sealedSegments := s.sealedSegments.put current blob
        records := entries.foldl (fun t e => t.remove e.1) s.records
        segments := s.segments.put next handoff
        metadata := { s.metadata with currentSegment := next } }

def usedBytes (t : Tree UInt64 Bytes) : Nat :=
  t.entries.foldl (fun sum e => saturatingAdd sum e.2.length) 0

def ensureUserCapacity (additional : Nat) : Journaled Unit := do
  let j ← get
  rejectIf (additional > j.config.segmentBytes.toNat) .oversizedRecord
  let used := usedBytes j.store.records
  let sealed := usedBytes j.store.sealedSegments
  let userLimit ← okOr (checkedSub j.config.maxJournalBytes j.config.cleanupReserveBytes)
    .quotaExceeded
  rejectIf (saturatingAdd (saturatingAdd used sealed) additional > userLimit.toNat) .quotaExceeded
  runIf (used ≠ 0 ∧ saturatingAdd used additional > j.config.segmentBytes.toNat)
    (failingWith .rotationUnavailable (sealActiveSegment true))

def postAckRotation : Journaled Unit := do
  match ← attempt (sealActiveSegment false) with
  | .error _ => modifyMeta fun m => { m with rotationDeferred := true }
  | .ok _ => modifyMeta fun m => { m with rotationDeferred := false }

def stopAutomation : Journaled Unit :=
  modify fun j => { j with
    automationStopped := true
    stopMarker := true
    store := { j.store with metadata := { j.store.metadata with automationStopped := true } } }

def stopAt (point : FaultPoint) : Journaled Unit := do
  let hit ← takeFault point
  runIf (hit = true) do
    stopAutomation
    throw .automationStopped

def beginCleanupReservation (id : OperationId) (bytes : Nat) : Journaled UInt64 := do
  stopAt (.beforeTransaction .reserve)
  stopAt (.transaction .reserve)
  let j ← get
  rejectIf (j.automationStopped = true ∨ j.store.metadata.reserveInflight.isSome = true
    ∨ j.store.metadata.automationStopped = true) .automationStopped
  match checkedSub j.store.metadata.reserve (UInt64.ofNat bytes) with
  | none => do
    stopAutomation
    throw .automationStopped
  | some next => do
    modifyMeta fun m => { m with reserveInflight := some (id, UInt64.ofNat bytes) }
    stopAt (.beforeFlush .reserve)
    stopAt (.duringFlush .reserve)
    stopAt (.afterFlush .reserve)
    pure next

def finishCleanupReservation (remaining : UInt64) : Journaled Unit := do
  modifyMeta fun m => { m with reserveInflight := none }
  modify fun j => { j with reserveFile := remaining }

/-! The read mirror. -/

def rotateReadMirror (last : UInt64) : Journaled Unit := do
  let j ← get
  rejectIf (j.mirror.active.length < 32) .io
  let first := UInt64.ofNat (ofBe ((j.mirror.active.drop 24).take 8))
  rejectIf (first = 0 ∨ last < first) .corrupt
  set { j with mirror := { j.mirror with
    segments := j.mirror.segments.filter (fun (f : (UInt64 × UInt64) × Bytes) => f.1 ≠ (first, last))
      ++ [((first, last), j.mirror.active)]
    active := WitnessJournal.readerMagic ++ j.config.journalId.val } }

def appendFrames : Nat → UInt64 → Journaled Unit
  | 0, _ => pure ()
  | count + 1, sequence => do
    let j ← get
    let bytes ← okOr (j.store.records.get sequence) .corrupt
    let frame := u64Be sequence ++ (u32Be bytes.length ++ bytes)
    runIf (j.mirror.active.length > 24
        ∧ saturatingAdd j.mirror.active.length frame.length > j.config.mirrorSegmentLimit)
      (rotateReadMirror (sequence - 1))
    modify fun j => { j with mirror := { j.mirror with active := j.mirror.active ++ frame } }
    appendFrames count (sequence + 1)

def appendReadMirror : Journaled Unit := do
  let j ← get
  let first := saturatingAdd j.mirror.sequence.toNat 1
  let (head, _) := j.head
  if first > head.toNat then
    pure ()
  else do
    appendFrames (head.toNat - first + 1) (UInt64.ofNat first)
    modify fun j => { j with mirror := { j.mirror with sequence := head } }

def updateReadMirrorBestEffort : Journaled Unit := do
  match ← attempt appendReadMirror with
  | .error _ => modify fun j => { j with mirror := { j.mirror with stale := true } }
  | .ok _ => pure ()

end Journal
end Ferrocrate.Witness

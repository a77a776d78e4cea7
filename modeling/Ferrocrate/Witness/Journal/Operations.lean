import Ferrocrate.Witness.Journal.Store

/-! The operations of a witness journal (`witness/journal.rs`, `journal/reconcile.rs`,
`journal/inspect.rs`). Each append loads the epoch first and does the rest under the
coordinator lock: the rest is a program of its own, with the loaded epoch as argument. -/
namespace Ferrocrate.Witness.Journal
open Lib Lib.Program

variable (sha256 : Hasher)

def appendReceivedAt (epoch : UInt64) (id : OperationId) (generation : UInt64)
    (recipe : RecoveryRecipe) (record : WitnessRecord) : Journaled Unit := do
  let record := { record with epoch := epoch }
  rejectIf (record.stage ≠ .requestReceived) .invalidStage
  rejectIf (recipe.preconditionDigest ≠ record.requestDigest
    ∨ recipe.resourceGeneration ≠ record.resourceGeneration
    ∨ recipe.originalAction ≠ record.action
    ∨ recipe.resourceKind ≠ record.resourceKind) .bindingMismatch
  preflight .received
  let j ← get
  rejectIf (j.store.operations.contains id = true) .duplicateOperation
  let (sequence, previous) := j.head
  let record := { record with sequence := sequence + 1, previousHash := previous }
  let bytes ← ofExcept .record (encodeRecord j.config.journalId record)
  ensureUserCapacity bytes.bytes.length
  let nextHash := hashRecord sha256 bytes
  let pendingValue := recipe.encode generation
  let operation := (OperationState.received sha256 record generation).encode
  transaction fun s =>
    if s.metadata.headSequence ≠ sequence then .error .corrupt
    else if s.operations.contains id then .error .duplicateOperation
    else if s.events.contains record.eventId then .error .duplicateEvent
    else .ok { s with
      records := s.records.put record.sequence bytes.bytes
      events := s.events.put record.eventId record.sequence
      operations := s.operations.put id operation
      pending := s.pending.put id pendingValue
      metadata := { s.metadata with headSequence := record.sequence, headHash := nextHash } }
  flush .received id
  updateReadMirrorBestEffort
  postAckRotation

def appendReceived (id : OperationId) (generation : UInt64) (recipe : RecoveryRecipe)
    (record : WitnessRecord) : Journaled Unit := do
  let j ← get
  appendReceivedAt sha256 j.epoch id generation recipe record

def appendDecisionRecord (id : OperationId) (record : WitnessRecord) (state : OperationState) :
    Journaled (Digest × OperationState) := do
  let j ← get
  let (sequence, previous) := j.head
  let record := { record with sequence := sequence + 1, previousHash := previous }
  let bytes ← ofExcept .record (encodeRecord j.config.journalId record)
  ensureUserCapacity bytes.bytes.length
  let nextHash := hashRecord sha256 bytes
  let decisionId ← okOr record.decisionId .invalidStage
  let state := { state with
    state := stateAllowed
    pendingGeneration := state.pendingGeneration + 1
    decisionId := decisionId
    decisionDigest := nextHash }
  transaction fun s =>
    if s.metadata.headSequence ≠ sequence then .error .corrupt
    else if s.events.contains record.eventId then .error .duplicateEvent
    else .ok { s with
      records := s.records.put record.sequence bytes.bytes
      events := s.events.put record.eventId record.sequence
      operations := s.operations.put id state.encode
      metadata := { s.metadata with headSequence := record.sequence, headHash := nextHash } }
  pure (nextHash, state)

def recipeDomain : Bytes := "ferrocrate.recovery-recipe.v1".toUTF8.toList ++ [0]

def appendDecisionAt (epoch : UInt64) (id : OperationId) (record : WitnessRecord) :
    Journaled DurableIntent := do
  let record := { record with epoch := epoch }
  rejectIf (record.stage ≠ .decision) .invalidStage
  preflight .decision
  let j ← get
  let pending ← okOr (j.store.pending.get id) .notPending
  let (generation, recipe) ← okOr (RecoveryRecipe.decode pending) .corrupt
  let stateBytes ← okOr (j.store.operations.get id) .notPending
  let state ← okOr (OperationState.decode stateBytes) .corrupt
  rejectIf (state.state ≠ stateReceived) .duplicateOperation
  rejectIf (state.bindingMatches sha256 record = false) .bindingMismatch
  rejectIf (record.decision ≠ some true) .invalidStage
  let decisionId ← okOr record.decisionId .invalidStage
  let (decisionDigest, state) ← appendDecisionRecord sha256 id record state
  flush .decision id
  updateReadMirrorBestEffort
  postAckRotation
  let j ← get
  pure {
    journalId := j.config.journalId
    epoch := j.epoch
    operationId := id
    executionGeneration := generation
    pendingGeneration := state.pendingGeneration
    decisionId := decisionId
    decisionDigest := decisionDigest
    requestDigest := state.requestDigest
    preconditionDigest := recipe.preconditionDigest
    recoveryRecipeDigest := sha256 (recipeDomain ++ pending) }

def appendDecision (id : OperationId) (record : WitnessRecord) : Journaled DurableIntent := do
  let j ← get
  appendDecisionAt sha256 j.epoch id record

def denyAt (epoch : UInt64) (id : OperationId) (decision denied : WitnessRecord) :
    Journaled Unit := do
  let decision := { decision with epoch := epoch }
  let denied := { denied with epoch := epoch }
  rejectIf (decision.stage ≠ .decision ∨ decision.decision ≠ some false ∨ denied.stage ≠ .denied)
    .invalidStage
  preflight .decision
  let j ← get
  let stateBytes ← okOr (j.store.operations.get id) .notPending
  let state ← okOr (OperationState.decode stateBytes) .corrupt
  rejectIf (state.state ≠ stateReceived ∨ state.bindingMatches sha256 decision = false
    ∨ state.bindingMatches sha256 denied = false ∨ decision.decisionId ≠ denied.decisionId)
    .bindingMismatch
  let (sequence, previous) := j.head
  let decision := { decision with sequence := sequence + 1, previousHash := previous }
  let decisionBytes ← ofExcept .record (encodeRecord j.config.journalId decision)
  let denied := { denied with
    sequence := sequence + 2
    previousHash := hashRecord sha256 decisionBytes }
  let deniedBytes ← ofExcept .record (encodeRecord j.config.journalId denied)
  ensureUserCapacity (decisionBytes.bytes.length + deniedBytes.bytes.length)
  let terminalHash := hashRecord sha256 deniedBytes
  let terminal := { state with
    state := stateComplete
    pendingGeneration := state.pendingGeneration + 1 }
  transaction fun s =>
    if s.metadata.headSequence ≠ sequence then .error .corrupt
    else if s.events.contains decision.eventId ∨ s.events.contains denied.eventId
        ∨ decision.eventId = denied.eventId then .error .duplicateEvent
    else .ok { s with
      records := (s.records.put decision.sequence decisionBytes.bytes).put denied.sequence
        deniedBytes.bytes
      events := (s.events.put decision.eventId decision.sequence).put denied.eventId denied.sequence
      operations := s.operations.put id terminal.encode
      pending := s.pending.remove id
      metadata := { s.metadata with headSequence := denied.sequence, headHash := terminalHash } }
  flush .decision id
  updateReadMirrorBestEffort
  postAckRotation

def deny (id : OperationId) (decision denied : WitnessRecord) : Journaled Unit := do
  let j ← get
  denyAt sha256 j.epoch id decision denied

def completeChecked (id : OperationId) (state : OperationState) (record : WitnessRecord)
    (forcedUnknown : Bool) : Journaled Unit := do
  let j ← get
  let (sequence, previous) := j.head
  let record := { record with sequence := sequence + 1, previousHash := previous }
  let bytes ← ofExcept .record (encodeRecord j.config.journalId record)
  ensureUserCapacity bytes.bytes.length
  let nextHash := hashRecord sha256 bytes
  let terminal := { state with
    state := if record.outcome = WitnessOutcome.outcomeUnknown then stateUnknown else stateComplete
    unknownEventId := if record.outcome = WitnessOutcome.outcomeUnknown then record.eventId
      else .zero 16
    pendingGeneration := state.pendingGeneration + 1 }
  transaction fun s =>
    if s.metadata.headSequence ≠ sequence then .error .corrupt
    else if (s.pending.get id).isNone then .error .alreadyComplete
    else if s.events.contains record.eventId then .error .duplicateEvent
    else .ok { s with
      records := s.records.put record.sequence bytes.bytes
      events := s.events.put record.eventId record.sequence
      operations := s.operations.put id terminal.encode
      pending := if record.outcome = WitnessOutcome.outcomeUnknown then s.pending
        else s.pending.remove id
      metadata := { s.metadata with headSequence := record.sequence, headHash := nextHash } }
  if forcedUnknown = true then do
    updateReadMirrorBestEffort
    throw (.indeterminate id)
  else do
    flush .outcome id
    updateReadMirrorBestEffort
    postAckRotation

def completeAt (epoch : UInt64) (intent : DurableIntent) (record : WitnessRecord) :
    Journaled Unit := do
  let record := { record with epoch := epoch }
  rejectIf (record.stage ≠ .outcome) .invalidStage
  preflight .outcome
  let id := intent.operationId
  let j ← get
  rejectIf (intent.journalId ≠ j.config.journalId ∨ intent.epoch ≠ j.epoch) .proofMismatch
  let stateBytes ← okOr (j.store.operations.get id) .notPending
  let state ← okOr (OperationState.decode stateBytes) .corrupt
  rejectIf (state.state ≠ stateAllowed ∨ state.executionGeneration ≠ intent.executionGeneration
    ∨ state.pendingGeneration ≠ intent.pendingGeneration ∨ state.decisionId ≠ intent.decisionId
    ∨ state.decisionDigest ≠ intent.decisionDigest) .proofMismatch
  rejectIf (state.terminalMatches sha256 record = false) .bindingMismatch
  let forcedUnknown ← takeFault (.beforeFlush .outcome)
  if forcedUnknown = true then
    completeChecked sha256 id state
      { record with outcome := .outcomeUnknown, reason := some .executionFailed } true
  else
    completeChecked sha256 id state record false

def complete (intent : DurableIntent) (record : WitnessRecord) : Journaled Unit := do
  let j ← get
  completeAt sha256 j.epoch intent record

def recordOutcomeUnknownAt (epoch : UInt64) (id : OperationId) (record : WitnessRecord) :
    Journaled Unit := do
  let record := { record with epoch := epoch }
  rejectIf (record.stage ≠ .outcome ∨ record.outcome ≠ .outcomeUnknown) .invalidStage
  preflight .outcome
  let j ← get
  let stateBytes ← okOr (j.store.operations.get id) .notPending
  let state ← okOr (OperationState.decode stateBytes) .corrupt
  if state.state = stateComplete then do
    flush .outcome id
    throw .alreadyComplete
  else do
    rejectIf (state.state ≠ stateAllowed ∨ state.terminalMatches sha256 record = false)
      .bindingMismatch
    let (sequence, previous) := j.head
    let record := { record with sequence := sequence + 1, previousHash := previous }
    let bytes ← ofExcept .record (encodeRecord j.config.journalId record)
    ensureUserCapacity bytes.bytes.length
    let nextHash := hashRecord sha256 bytes
    let state := { state with
      state := stateUnknown
      unknownEventId := record.eventId
      pendingGeneration := state.pendingGeneration + 1 }
    transaction fun s =>
      if s.metadata.headSequence ≠ sequence then .error .corrupt
      else if s.events.contains record.eventId then .error .duplicateEvent
      else .ok { s with
        records := s.records.put record.sequence bytes.bytes
        events := s.events.put record.eventId record.sequence
        operations := s.operations.put id state.encode
        metadata := { s.metadata with headSequence := record.sequence, headHash := nextHash } }
    flush .outcome id
    postAckRotation

def recordOutcomeUnknown (id : OperationId) (record : WitnessRecord) : Journaled Unit := do
  let j ← get
  recordOutcomeUnknownAt sha256 j.epoch id record

def completeRecoveryAt (epoch : UInt64) (id : OperationId) (record : WitnessRecord) :
    Journaled Unit := do
  let record := { record with epoch := epoch }
  let j ← get
  rejectIf (j.automationStopped = true) .automationStopped
  rejectIf (record.stage ≠ .recovery) .invalidStage
  let stateBytes ← okOr (j.store.operations.get id) .notPending
  let state ← okOr (OperationState.decode stateBytes) .corrupt
  rejectIf (state.state ≠ stateUnknown ∨ state.terminalMatches sha256 record = false
    ∨ record.recoveryLink ≠ some state.unknownEventId) .bindingMismatch
  let (sequence, previous) := j.head
  let record := { record with sequence := sequence + 1, previousHash := previous }
  let bytes ← ofExcept .record (encodeRecord j.config.journalId record)
  rejectIf (j.store.events.contains record.eventId = true) .duplicateEvent
  let reserveAfter ← beginCleanupReservation id bytes.bytes.length
  stopAt (.beforeTransaction .outcome)
  stopAt (.transaction .outcome)
  let nextHash := hashRecord sha256 bytes
  let terminal := { state with
    state := stateComplete
    pendingGeneration := state.pendingGeneration + 1 }
  transaction fun s =>
    if s.metadata.headSequence ≠ sequence then .error .corrupt
    else if s.events.contains record.eventId then .error .duplicateEvent
    else .ok { s with
      records := s.records.put record.sequence bytes.bytes
      events := s.events.put record.eventId record.sequence
      operations := s.operations.put id terminal.encode
      pending := s.pending.remove id
      metadata := { s.metadata with
        headSequence := record.sequence
        headHash := nextHash
        reserve := reserveAfter } }
  match ← attempt (flush .outcome id) with
  | .error _ => do
    stopAutomation
    throw .automationStopped
  | .ok _ => do
    finishCleanupReservation reserveAfter
    postAckRotation

def completeRecovery (id : OperationId) (record : WitnessRecord) : Journaled Unit := do
  let j ← get
  completeRecoveryAt sha256 j.epoch id record

def publishLocked (artifactDigest : Digest) (record : WitnessRecord) : Journaled Unit := do
  let j ← get
  rejectIf (record.epoch ≠ j.epoch) .proofMismatch
  match j.store.events.get record.eventId with
  | some sequence => do
    let bytes ← okOr (j.store.records.get sequence) .corrupt
    let existing ← ofExcept .record (decodeRecord bytes)
    rejectIf (¬(existing.record.epoch = record.epoch
      ∧ existing.record.stage = .checkpointPublished
      ∧ existing.record.resultDigest = some artifactDigest)) .duplicateEvent
  | none => do
    preflight .outcome
    failAt .checkpointBindingRejected .bindingMismatch
    let j ← get
    let (sequence, previous) := j.head
    let next ← okOr (checkedAdd sequence 1) .corrupt
    let record := { record with sequence := next, previousHash := previous }
    let bytes ← ofExcept .record (encodeRecord j.config.journalId record)
    ensureUserCapacity bytes.bytes.length
    let nextHash := hashRecord sha256 bytes
    transaction fun s =>
      if s.metadata.headSequence ≠ sequence then .error .corrupt
      else if s.events.contains record.eventId then .error .duplicateEvent
      else .ok { s with
        records := s.records.put record.sequence bytes.bytes
        events := s.events.put record.eventId record.sequence
        metadata := { s.metadata with headSequence := record.sequence, headHash := nextHash } }
    flush .outcome record.requestId
    updateReadMirrorBestEffort

def appendCheckpointPublication (artifactDigest : Digest) (record : WitnessRecord) :
    Journaled Unit := do
  rejectIf (record.stage ≠ .checkpointPublished ∨ record.action ≠ .checkpointPublish
    ∨ record.outcome ≠ .succeeded) .invalidStage
  let record := { record with resultDigest := some artifactDigest }
  ofExcept .record (validateRecord record)
  publishLocked sha256 artifactDigest record

def maintain : Journaled Unit := sealActiveSegment true

def advanceEpoch (expected : UInt64) : Journaled UInt64 := do
  let j ← get
  rejectIf (j.epoch ≠ expected) .proofMismatch
  let next ← okOr (checkedAdd expected 1) .corrupt
  modifyMeta fun m => { m with epoch := next }
  modify fun j => { j with epoch := next }
  pure next

structure JournalHead where
  journalId : Id
  epoch : UInt64
  sequence : UInt64
  hash : Digest

def flushedHead : Journaled JournalHead := do
  let j ← get
  let (sequence, hash) := j.head
  pure ⟨j.config.journalId, j.epoch, sequence, hash⟩

/-! Inspection, `journal/inspect.rs`. -/

def parseFrom : Nat → Bytes → Except JournalError (List Bytes)
  | _, [] => .ok []
  | 0, _ :: _ => .error .corrupt
  | fuel + 1, blob =>
    if blob.length < 12 then .error .corrupt
    else
      let length := ofBe ((blob.drop 8).take 4)
      let rest := blob.drop 12
      if rest.length < length then .error .corrupt
      else (parseFrom fuel (rest.drop length)).map (rest.take length :: ·)

def parseSegment (blob : Bytes) : Except JournalError (List Bytes) := parseFrom blob.length blob

def records (j : WitnessJournal) : Except JournalError (List Bytes) := do
  let out ← j.store.sealedSegments.entries.mapM fun e => parseSegment e.2
  .ok (out.flatten ++ j.store.records.entries.map (·.2))

def recover (id : OperationId) (j : WitnessJournal) : Except JournalError PendingOperation :=
  match j.store.pending.get id with
  | none =>
    match (j.store.operations.get id).bind OperationState.decode with
    | some state => if state.state = stateComplete then .error .alreadyComplete else .error .notPending
    | none => .error .notPending
  | some value =>
    match RecoveryRecipe.decode value with
    | none => .error .corrupt
    | some (executionGeneration, recipe) => .ok ⟨id, executionGeneration, recipe⟩

end Ferrocrate.Witness.Journal

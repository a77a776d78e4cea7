import Ferrocrate.Witness.Journal.Operations

/-! Reconciling a pending operation from an observation of the live state
(`witness/journal/reconcile.rs`): the records are rebuilt from the stored state, by decoders
of their own. -/
namespace Ferrocrate.Witness.Journal
open Lib Lib.Program

def invocation : UInt8 → Except JournalError Invocation
  | 1 => .ok .cli | 2 => .ok .dockerUnix | 3 => .ok .compose | 4 => .ok .cri
  | 5 => .ok .manager | 6 => .ok .internalCleanup
  | _ => .error .corrupt

def action : UInt8 → Except JournalError WitnessAction
  | 1 => .ok .containerCreate | 2 => .ok .containerRun | 3 => .ok .containerExec
  | 4 => .ok .containerPause | 5 => .ok .containerResume | 6 => .ok .containerStop
  | 7 => .ok .containerKill | 8 => .ok .containerRestart | 9 => .ok .containerDelete
  | 10 => .ok .imagePull | 11 => .ok .imageDelete | 12 => .ok .volumeCreate
  | 13 => .ok .volumeDelete | 14 => .ok .volumeMount | 15 => .ok .volumeUnmount
  | 16 => .ok .networkCreate | 17 => .ok .networkDelete | 18 => .ok .networkAttach
  | 19 => .ok .networkDetach | 20 => .ok .deviceUse | 21 => .ok .policyReload
  | 22 => .ok .policyRollback | 23 => .ok .checkpointPublish | 24 => .ok .imageBuild
  | 25 => .ok .imageTag | 26 => .ok .imageReferenceWrite | 27 => .ok .checkpointRecover
  | 28 => .ok .keyRotate | 29 => .ok .rootlessMapping | 30 => .ok .containerRename
  | 33 => .ok .containerUpdate | 34 => .ok .volumeBackup | 35 => .ok .volumeRestore
  | _ => .error .corrupt

def resourceKind : UInt8 → Except JournalError WitnessResourceKind
  | 1 => .ok .container | 2 => .ok .image | 3 => .ok .volume | 4 => .ok .network
  | 5 => .ok .device | 6 => .ok .policy | 7 => .ok .administrative
  | _ => .error .corrupt

def disclosure : UInt8 → Except JournalError (Option DisclosureClass)
  | 0 => .ok none | 1 => .ok (some .runtimeManaged) | 2 => .ok (some .readOnlyHost)
  | 3 => .ok (some .ephemeral) | 4 => .ok (some .blockDevice) | 5 => .ok (some .characterDevice)
  | 6 => .ok (some .accelerator)
  | _ => .error .corrupt

def recordFromState (state : OperationState) (stage : WitnessStage) (eventId : Id) :
    Except JournalError WitnessRecord := do
  let invocation ← invocation state.invocation
  let action ← action state.action
  let resourceKind ← resourceKind state.resourceKind
  let pathClass ← disclosure state.pathClass
  let deviceClass ← disclosure state.deviceClass
  .ok {
    epoch := 0
    sequence := 0
    previousHash := .zero 32
    eventId := eventId
    requestId := state.requestId
    runtimeInstanceId := state.runtimeId
    bootId := state.bootId
    principal := state.principal
    invocation := invocation
    action := action
    resourceKind := resourceKind
    resource := state.resource
    resourceGeneration := state.resourceGeneration
    policyVersion := state.policyVersion
    policyDigest := state.policyDigest
    decisionId := some state.decisionId
    rule := none
    decision := none
    reason := none
    requestDigest := state.requestDigest
    resultDigest := none
    wallTimeNs := 0
    monotonicNs := 0
    stage := stage
    outcome := .none
    recoveryLink := none
    pathClass := pathClass
    deviceClass := deviceClass
    correlationDigest := state.correlationDigest }

def reconciliationDomain : Bytes := "FERROCRATE-RECONCILIATION-EVENT-V1".toUTF8.toList

def unknownLabel : Bytes := "unknown".toUTF8.toList

def recoveryLabel (recovered : Bool) : Bytes :=
  if recovered then "recovered".toUTF8.toList else "quarantined".toUTF8.toList

variable (sha256 : Hasher)

def reconciliationEventId (id : OperationId) (observation : Digest) (label : Bytes) : Id :=
  (sha256 (reconciliationDomain ++ (id.val ++ (observation.val
    ++ (u64Be (UInt64.ofNat label.length) ++ label))))).first 16 FixedBytes.sixteen_le

def settleUnknown (id : OperationId) (observation : Digest) (state : OperationState) :
    Journaled Id :=
  if state.state = stateAllowed then do
    let eventId := reconciliationEventId sha256 id observation unknownLabel
    let unknown ← ofExcept (fun e => e) (recordFromState state .outcome eventId)
    recordOutcomeUnknown sha256 id { unknown with
      resultDigest := some observation
      reason := some .executionFailed
      outcome := .outcomeUnknown }
    pure eventId
  else if state.state = stateUnknown then pure state.unknownEventId
  else if state.state = stateComplete then throw .alreadyComplete
  else throw .bindingMismatch

def reconcileObserved (evidence : RecoveryEvidence) : Journaled Unit := do
  let id := evidence.operationId
  let observation := evidence.observationDigest
  let j ← get
  let pending ← okOr (j.store.pending.get id) .notPending
  let (executionGeneration, recipe) ← okOr (RecoveryRecipe.decode pending) .corrupt
  rejectIf (executionGeneration ≠ evidence.executionGeneration
    ∨ recipe.originalAction ≠ evidence.originalAction
    ∨ recipe.resourceKind ≠ evidence.resourceKind
    ∨ recipe.resourceGeneration ≠ evidence.resourceGeneration
    ∨ recipe.truthStrategy ≠ evidence.truthStrategy
    ∨ recipe.observationHandle ≠ evidence.observationHandle) .bindingMismatch
  let stateBytes ← okOr (j.store.operations.get id) .notPending
  let state ← okOr (OperationState.decode stateBytes) .corrupt
  let unknownEventId ← settleUnknown sha256 id observation state
  let recovery ← ofExcept (fun e => e) (recordFromState state .recovery
    (reconciliationEventId sha256 id observation (recoveryLabel evidence.recovered)))
  completeRecovery sha256 id { recovery with
    resultDigest := some observation
    recoveryLink := some unknownEventId
    reason := if evidence.recovered then some .recoveryCompleted else some .quarantined
    outcome := if evidence.recovered then .recovered else .quarantined }

end Ferrocrate.Witness.Journal

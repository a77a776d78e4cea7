import Ferrocrate.Lib.Bytes

/-! Witness records: the closed vocabularies of `witness.rs` with their stored
discriminants, and the lifecycle schema of `witness/validation.rs`. -/
namespace Ferrocrate.Witness
open Lib

abbrev Id := FixedBytes 16
abbrev Digest := FixedBytes 32
abbrev Hasher := Bytes → Digest

inductive Invocation where
  | cli | dockerUnix | compose | cri | manager | internalCleanup
deriving DecidableEq

def Invocation.code : Invocation → UInt8
  | .cli => 1 | .dockerUnix => 2 | .compose => 3 | .cri => 4 | .manager => 5
  | .internalCleanup => 6

inductive WitnessStage where
  | requestReceived | decision | denied | outcome | recovery | checkpointPublished
deriving DecidableEq

def WitnessStage.code : WitnessStage → UInt8
  | .requestReceived => 1 | .decision => 2 | .denied => 3 | .outcome => 4 | .recovery => 5
  | .checkpointPublished => 6

inductive WitnessOutcome where
  | none | denied | succeeded | failed | outcomeUnknown | recovered | quarantined
deriving DecidableEq

def WitnessOutcome.code : WitnessOutcome → UInt8
  | .none => 0 | .denied => 1 | .succeeded => 2 | .failed => 3 | .outcomeUnknown => 4
  | .recovered => 5 | .quarantined => 6

inductive DisclosureClass where
  | runtimeManaged | readOnlyHost | ephemeral | blockDevice | characterDevice | accelerator
deriving DecidableEq

def DisclosureClass.code : DisclosureClass → UInt8
  | .runtimeManaged => 1 | .readOnlyHost => 2 | .ephemeral => 3 | .blockDevice => 4
  | .characterDevice => 5 | .accelerator => 6

inductive WitnessAction where
  | containerCreate | containerRun | containerExec | containerPause | containerResume
  | containerStop | containerKill | containerRestart | containerDelete | imagePull
  | imageDelete | volumeCreate | volumeDelete | volumeMount | volumeUnmount
  | networkCreate | networkDelete | networkAttach | networkDetach | deviceUse
  | policyReload | policyRollback | checkpointPublish | imageBuild | imageTag
  | imageReferenceWrite | checkpointRecover | keyRotate | rootlessMapping | containerRename
  | containerStart | containerArchiveWrite | containerUpdate | volumeBackup | volumeRestore
deriving DecidableEq

def WitnessAction.code : WitnessAction → UInt8
  | .containerCreate => 1 | .containerRun => 2 | .containerExec => 3 | .containerPause => 4
  | .containerResume => 5 | .containerStop => 6 | .containerKill => 7 | .containerRestart => 8
  | .containerDelete => 9 | .imagePull => 10 | .imageDelete => 11 | .volumeCreate => 12
  | .volumeDelete => 13 | .volumeMount => 14 | .volumeUnmount => 15 | .networkCreate => 16
  | .networkDelete => 17 | .networkAttach => 18 | .networkDetach => 19 | .deviceUse => 20
  | .policyReload => 21 | .policyRollback => 22 | .checkpointPublish => 23 | .imageBuild => 24
  | .imageTag => 25 | .imageReferenceWrite => 26 | .checkpointRecover => 27 | .keyRotate => 28
  | .rootlessMapping => 29 | .containerRename => 30 | .containerStart => 31
  | .containerArchiveWrite => 32 | .containerUpdate => 33 | .volumeBackup => 34
  | .volumeRestore => 35

inductive WitnessResourceKind where
  | container | image | volume | network | device | policy | administrative | rootlessMapping
deriving DecidableEq

def WitnessResourceKind.code : WitnessResourceKind → UInt8
  | .container => 1 | .image => 2 | .volume => 3 | .network => 4 | .device => 5 | .policy => 6
  | .administrative => 7 | .rootlessMapping => 8

inductive ReasonCode where
  | policyDenied | executionFailed | recoveryCompleted | quarantined | emergencyOverride
deriving DecidableEq

def ReasonCode.code : ReasonCode → UInt8
  | .policyDenied => 1 | .executionFailed => 2 | .recoveryCompleted => 3 | .quarantined => 4
  | .emergencyOverride => 5

structure WitnessRecord where
  epoch : UInt64
  sequence : UInt64
  previousHash : Digest
  eventId : Id
  requestId : Id
  runtimeInstanceId : Id
  bootId : Id
  principal : Digest
  invocation : Invocation
  action : WitnessAction
  resourceKind : WitnessResourceKind
  resource : Digest
  resourceGeneration : UInt64
  policyVersion : UInt64
  policyDigest : Digest
  decisionId : Option Id
  rule : Option Id
  decision : Option Bool
  reason : Option ReasonCode
  requestDigest : Digest
  resultDigest : Option Digest
  wallTimeNs : Int64
  monotonicNs : UInt64
  stage : WitnessStage
  outcome : WitnessOutcome
  recoveryLink : Option Id
  pathClass : Option DisclosureClass
  deviceClass : Option DisclosureClass
  correlationDigest : Option Digest

abbrev ParsedRecord := WitnessRecord

inductive WitnessError where
  | boundExceeded (field : String)
  | truncated
  | unknownDiscriminant (field : String)
  | nonCanonicalText
  | nonCanonicalEncoding
  | wrongJournal
  | wrongEpoch
  | sequenceGap
  | brokenLink
  | invalidLifecycle
  | tooManyOpenRequests
  | tooManyRecords
  | invalidPurpose
deriving DecidableEq

def validRecord (record : WitnessRecord) : Bool :=
  match record.stage with
  | .requestReceived =>
    record.decisionId.isNone && record.rule.isNone && record.decision.isNone
      && record.reason.isNone && record.resultDigest.isNone && record.recoveryLink.isNone
      && record.outcome = .none
  | .decision =>
    record.decisionId.isSome && record.rule.isSome && record.resultDigest.isNone
      && record.recoveryLink.isNone && record.outcome = .none
      && (match record.decision with
        | some true => record.reason.isNone || record.reason = some .emergencyOverride
        | some false => record.reason = some .policyDenied
        | none => false)
  | .denied =>
    record.decisionId.isSome && record.rule.isNone && record.decision.isNone
      && record.reason = some .policyDenied && record.resultDigest.isNone
      && record.recoveryLink.isNone && record.outcome = .denied
  | .outcome =>
    record.decisionId.isSome && record.rule.isNone && record.decision.isNone
      && record.resultDigest.isSome && record.recoveryLink.isNone
      && (match record.outcome with
        | .succeeded => record.reason.isNone
        | .failed | .outcomeUnknown => record.reason = some .executionFailed
        | _ => false)
  | .recovery =>
    record.decisionId.isSome && record.rule.isNone && record.decision.isNone
      && record.resultDigest.isSome && record.recoveryLink.isSome
      && (match record.outcome with
        | .recovered => record.reason = some .recoveryCompleted
        | .quarantined => record.reason = some .quarantined
        | _ => false)
  | .checkpointPublished =>
    record.action = .checkpointPublish && record.outcome = .succeeded
      && record.resultDigest.isSome && record.decisionId.isNone && record.rule.isNone
      && record.decision.isNone && record.reason.isNone && record.recoveryLink.isNone

def validateRecord (record : WitnessRecord) : Except WitnessError Unit :=
  if validRecord record then .ok () else .error .invalidLifecycle

theorem validateRecord_ok_iff (record : WitnessRecord) :
    validateRecord record = .ok () ↔ validRecord record = true := by
  unfold validateRecord
  split <;> simp_all

def plainRecord (requestId eventId : Id) (stage : WitnessStage) : WitnessRecord where
  epoch := 1
  sequence := 1
  previousHash := .zero 32
  eventId := eventId
  requestId := requestId
  runtimeInstanceId := .zero 16
  bootId := .zero 16
  principal := .zero 32
  invocation := .cli
  action := if stage = .checkpointPublished then .checkpointPublish else .containerCreate
  resourceKind := .container
  resource := .zero 32
  resourceGeneration := 1
  policyVersion := 1
  policyDigest := .zero 32
  decisionId :=
    if stage = .requestReceived ∨ stage = .checkpointPublished then none else some (.zero 16)
  rule := if stage = .decision then some (.zero 16) else none
  decision := if stage = .decision then some true else none
  reason :=
    match stage with
    | .denied => some .policyDenied
    | .recovery => some .recoveryCompleted
    | _ => none
  requestDigest := .zero 32
  resultDigest :=
    if stage = .outcome ∨ stage = .recovery ∨ stage = .checkpointPublished then some (.zero 32)
    else none
  wallTimeNs := 0
  monotonicNs := 0
  stage := stage
  outcome :=
    match stage with
    | .denied => .denied
    | .outcome => .succeeded
    | .recovery => .recovered
    | .checkpointPublished => .succeeded
    | _ => .none
  recoveryLink := if stage = .recovery then some eventId else none
  pathClass := none
  deviceClass := none
  correlationDigest := none

end Ferrocrate.Witness

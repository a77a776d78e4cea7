import Mathlib.Data.Finset.Basic
import Ferrocrate.Lib.Tree
import Ferrocrate.Witness.Encoding

/-! The stream verifier of `witness/verify.rs`: one record at a time against a pinned prefix,
with the open lifecycle of each request. A verifier that refused a record is dropped by its
callers, so a failed push returns no state. -/
namespace Ferrocrate.Witness
open Lib

def maxOpenRequests : Nat := 4096

structure StreamTrust where
  expectedJournalId : Id
  expectedEpoch : UInt64
  expectedFirstSequence : UInt64
  expectedPredecessorHash : Digest
  maxRecords : UInt64

def StreamTrust.new (journalId : Id) (epoch firstSequence : UInt64) (predecessorHash : Digest) :
    StreamTrust :=
  ⟨journalId, epoch, firstSequence, predecessorHash, 1000000⟩

def StreamTrust.withMaxRecords (trust : StreamTrust) (maxRecords : UInt64) : StreamTrust :=
  { trust with maxRecords := maxRecords }

inductive Freshness where
  | current | stale | unknownTail

inductive CheckpointAge where
  | current (seconds : UInt64)
  | stale (seconds : UInt64)

structure VerificationReport where
  integrity : Bool
  lifecycleConsistent : Bool
  completenessThroughCheckpoint : Option Bool
  tailFreshness : Freshness
  checkpointAge : Option CheckpointAge
  records : Nat
  terminalDenied : Nat
  terminalOutcomes : Nat
  terminalRecoveries : Nat
  discontinuities : Nat

structure RequestBinding where
  runtimeInstanceId : Id
  bootId : Id
  principalDigest : Digest
  invocation : Invocation
  action : WitnessAction
  resourceKind : WitnessResourceKind
  resourceDigest : Digest
  resourceGeneration : UInt64
  policyVersion : UInt64
  policyDigest : Digest
  requestDigest : Digest
  pathClass : Option DisclosureClass
  deviceClass : Option DisclosureClass
  correlationDigest : Option Digest
deriving DecidableEq

def RequestBinding.ofRecord (record : ParsedRecord) : RequestBinding :=
  ⟨record.runtimeInstanceId, record.bootId, record.principal, record.invocation, record.action,
    record.resourceKind, record.resource, record.resourceGeneration, record.policyVersion,
    record.policyDigest, record.requestDigest, record.pathClass, record.deviceClass,
    record.correlationDigest⟩

inductive Lifecycle where
  | received (binding : RequestBinding)
  | allowed (binding : RequestBinding) (decisionId : Id)
  | deniedDecision (binding : RequestBinding) (decisionId : Id)
  | unknown (binding : RequestBinding) (decisionId eventId : Id)

def sameBinding (record : ParsedRecord) (binding : RequestBinding) : Bool :=
  RequestBinding.ofRecord record = binding

abbrev Progress := Tree Id Lifecycle × Finset Id × VerificationReport

def transition (record : ParsedRecord) (progress : Progress) : Except WitnessError Progress :=
  let (states, requestIds, report) := progress
  let id := record.requestId
  match record.stage with
  | .requestReceived =>
    if id ∈ requestIds ∨ (states.get id).isSome = true then .error .invalidLifecycle
    else .ok (states.put id (.received (.ofRecord record)), insert id requestIds, report)
  | .decision =>
    match states.get id, record.decisionId with
    | some (.received binding), some decisionId =>
      if sameBinding record binding then
        .ok ((states.remove id).put id (if record.decision = some true
          then .allowed binding decisionId else .deniedDecision binding decisionId),
          requestIds, report)
      else .error .invalidLifecycle
    | _, _ => .error .invalidLifecycle
  | .denied =>
    match states.get id with
    | some (.deniedDecision binding decisionId) =>
      if sameBinding record binding ∧ record.decisionId = some decisionId then
        .ok (states.remove id, requestIds, { report with terminalDenied := report.terminalDenied + 1 })
      else .error .invalidLifecycle
    | _ => .error .invalidLifecycle
  | .outcome =>
    match states.get id with
    | some (.allowed binding decisionId) =>
      if sameBinding record binding ∧ record.decisionId = some decisionId then
        if record.outcome = .outcomeUnknown then
          .ok ((states.remove id).put id (.unknown binding decisionId record.eventId), requestIds,
            report)
        else
          .ok (states.remove id, requestIds,
            { report with terminalOutcomes := report.terminalOutcomes + 1 })
      else .error .invalidLifecycle
    | _ => .error .invalidLifecycle
  | .recovery =>
    match states.get id with
    | some (.unknown binding decisionId eventId) =>
      if sameBinding record binding ∧ record.decisionId = some decisionId
          ∧ record.recoveryLink = some eventId then
        .ok (states.remove id, requestIds,
          { report with terminalRecoveries := report.terminalRecoveries + 1 })
      else .error .invalidLifecycle
    | _ => .error .invalidLifecycle
  | .checkpointPublished => .ok progress

structure StreamVerifier where
  trust : StreamTrust
  expectedSequence : UInt64
  previousHash : Digest
  eventIds : Finset Id
  progress : Progress

namespace StreamVerifier

def lifecycles (v : StreamVerifier) : Tree Id Lifecycle := v.progress.1

def report (v : StreamVerifier) : VerificationReport := v.progress.2.2

def new (trust : StreamTrust) : StreamVerifier where
  trust := trust
  expectedSequence := trust.expectedFirstSequence
  previousHash := trust.expectedPredecessorHash
  eventIds := ∅
  progress := (.empty, ∅, ⟨true, true, none, .unknownTail, none, 0, 0, 0, 0, 0⟩)

def advanceEpoch (v : StreamVerifier) (epoch : UInt64) : Except WitnessError StreamVerifier :=
  if v.lifecycles.size ≠ 0 ∨ checkedAdd v.trust.expectedEpoch 1 ≠ some epoch then
    .error .wrongEpoch
  else .ok { v with
    trust := { v.trust with expectedEpoch := epoch }
    progress := (v.progress.1, v.progress.2.1,
      { v.report with discontinuities := v.report.discontinuities + 1 }) }

def push (sha256 : Hasher) (v : StreamVerifier) (bytes : Bytes) :
    Except WitnessError StreamVerifier :=
  if v.trust.maxRecords.toNat ≤ v.report.records then .error .tooManyRecords
  else do
    let decoded ← decodeRecord bytes
    let record := decoded.record
    if decoded.journalId ≠ v.trust.expectedJournalId then .error .wrongJournal
    else if record.epoch ≠ v.trust.expectedEpoch then .error .wrongEpoch
    else if record.sequence ≠ v.expectedSequence ∨ record.eventId ∈ v.eventIds then
      .error .sequenceGap
    else if record.previousHash ≠ v.previousHash then .error .brokenLink
    else do
      validateRecord record
      let (states, requestIds, report) ← transition record v.progress
      if maxOpenRequests < states.size then .error .tooManyOpenRequests
      else
        match checkedAdd v.expectedSequence 1 with
        | none => .error .sequenceGap
        | some next => .ok {
            trust := v.trust
            expectedSequence := next
            previousHash := hashRecord sha256 decoded.bytes
            eventIds := insert record.eventId v.eventIds
            progress := (states, requestIds, { report with records := report.records + 1 }) }

def finish (v : StreamVerifier) : Except WitnessError VerificationReport :=
  if v.lifecycles.size ≠ 0 then .error .invalidLifecycle else .ok v.report

def pushAll (sha256 : Hasher) (v : StreamVerifier) (records : List Bytes) :
    Except WitnessError StreamVerifier :=
  records.foldlM (push sha256) v

end StreamVerifier

def verifyStream (sha256 : Hasher) (records : List Bytes) (trust : StreamTrust) :
    Except WitnessError VerificationReport := do
  let verifier ← StreamVerifier.pushAll sha256 (.new trust) records
  verifier.finish

end Ferrocrate.Witness

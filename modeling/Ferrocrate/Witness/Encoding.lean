import Ferrocrate.Witness.Record
import Ferrocrate.Lib.Program

/-! The canonical byte format of `witness/encoding.rs` and the record hash over it. -/
namespace Ferrocrate.Witness
open Lib Lib.Reader

def formatVersion : UInt8 := 2
def hashAlgorithmSha256 : UInt8 := 1
def hashDomain : Bytes := "FERROCRATE-WITNESS-V2".toUTF8.toList
def maxRecordBytes : Nat := 8 * 1024

structure RecordBytes where
  journalId : Id
  bytes : Bytes

structure DecodedRecord where
  journalId : Id
  record : ParsedRecord
  bytes : RecordBytes

def putFixedOptional {n : Nat} : Option (FixedBytes n) → Bytes
  | none => [0]
  | some value => 1 :: value.val

def putBoolOptional : Option Bool → Bytes
  | none => [0]
  | some false => [1]
  | some true => [2]

def putEnumOptional {α : Type} (code : α → UInt8) : Option α → Bytes
  | none => [0]
  | some value => [1, code value]

def recordLayout (journalId : Id) (record : WitnessRecord) : Bytes :=
  [formatVersion] ++ ([hashAlgorithmSha256] ++ (journalId.val ++ (u64Be record.epoch
  ++ (u64Be record.sequence ++ (record.previousHash.val ++ (record.eventId.val
  ++ (record.requestId.val ++ (record.runtimeInstanceId.val ++ (record.bootId.val
  ++ (record.principal.val ++ ([record.invocation.code] ++ ([record.action.code]
  ++ ([record.resourceKind.code] ++ (record.resource.val ++ (u64Be record.resourceGeneration
  ++ (u64Be record.policyVersion ++ (record.policyDigest.val
  ++ (putFixedOptional record.decisionId ++ (putFixedOptional record.rule
  ++ (putBoolOptional record.decision ++ (putEnumOptional ReasonCode.code record.reason
  ++ (record.requestDigest.val ++ (putFixedOptional record.resultDigest
  ++ (u64Be record.wallTimeNs.toUInt64 ++ (u64Be record.monotonicNs ++ ([record.stage.code]
  ++ ([record.outcome.code] ++ (putFixedOptional record.recoveryLink
  ++ (putEnumOptional DisclosureClass.code record.pathClass
  ++ (putEnumOptional DisclosureClass.code record.deviceClass
  ++ putFixedOptional record.correlationDigest))))))))))))))))))))))))))))))

def encodeRecord (journalId : Id) (record : WitnessRecord) : Except WitnessError RecordBytes := do
  validateRecord record
  if (recordLayout journalId record).length > maxRecordBytes then
    .error (.boundExceeded "record")
  else
    .ok ⟨journalId, recordLayout journalId record⟩

def invocation : UInt8 → Except WitnessError Invocation
  | 1 => .ok .cli | 2 => .ok .dockerUnix | 3 => .ok .compose | 4 => .ok .cri
  | 5 => .ok .manager | 6 => .ok .internalCleanup
  | _ => .error (.unknownDiscriminant "invocation")

def action : UInt8 → Except WitnessError WitnessAction
  | 1 => .ok .containerCreate | 2 => .ok .containerRun | 3 => .ok .containerExec
  | 4 => .ok .containerPause | 5 => .ok .containerResume | 6 => .ok .containerStop
  | 7 => .ok .containerKill | 8 => .ok .containerRestart | 9 => .ok .containerDelete
  | 10 => .ok .imagePull | 11 => .ok .imageDelete | 12 => .ok .volumeCreate
  | 13 => .ok .volumeDelete | 14 => .ok .volumeMount | 15 => .ok .volumeUnmount
  | 16 => .ok .networkCreate | 17 => .ok .networkDelete | 18 => .ok .networkAttach
  | 19 => .ok .networkDetach | 20 => .ok .deviceUse | 21 => .ok .policyReload
  | 22 => .ok .policyRollback | 23 => .ok .checkpointPublish | 24 => .ok .imageBuild
  | 25 => .ok .imageTag | 26 => .ok .imageReferenceWrite | 27 => .ok .checkpointRecover
  | 28 => .ok .keyRotate | 29 => .ok .rootlessMapping | 30 => .ok .containerRename
  | 31 => .ok .containerStart | 32 => .ok .containerArchiveWrite | 33 => .ok .containerUpdate
  | 34 => .ok .volumeBackup | 35 => .ok .volumeRestore
  | _ => .error (.unknownDiscriminant "action")

def resourceKind : UInt8 → Except WitnessError WitnessResourceKind
  | 1 => .ok .container | 2 => .ok .image | 3 => .ok .volume | 4 => .ok .network
  | 5 => .ok .device | 6 => .ok .policy | 7 => .ok .administrative | 8 => .ok .rootlessMapping
  | _ => .error (.unknownDiscriminant "resource kind")

def stage : UInt8 → Except WitnessError WitnessStage
  | 1 => .ok .requestReceived | 2 => .ok .decision | 3 => .ok .denied | 4 => .ok .outcome
  | 5 => .ok .recovery | 6 => .ok .checkpointPublished
  | _ => .error (.unknownDiscriminant "stage")

def outcome : UInt8 → Except WitnessError WitnessOutcome
  | 0 => .ok .none | 1 => .ok .denied | 2 => .ok .succeeded | 3 => .ok .failed
  | 4 => .ok .outcomeUnknown | 5 => .ok .recovered | 6 => .ok .quarantined
  | _ => .error (.unknownDiscriminant "outcome")

def disclosure : UInt8 → Except WitnessError DisclosureClass
  | 1 => .ok .runtimeManaged | 2 => .ok .readOnlyHost | 3 => .ok .ephemeral
  | 4 => .ok .blockDevice | 5 => .ok .characterDevice | 6 => .ok .accelerator
  | _ => .error (.unknownDiscriminant "disclosure class")

def reason : UInt8 → Except WitnessError ReasonCode
  | 1 => .ok .policyDenied | 2 => .ok .executionFailed | 3 => .ok .recoveryCompleted
  | 4 => .ok .quarantined | 5 => .ok .emergencyOverride
  | _ => .error (.unknownDiscriminant "reason")

namespace Decoder

def expect (byte : UInt8) (field : String) : Reader WitnessError Unit := fun bs =>
  match bs with
  | [] => .error .truncated
  | b :: rest => if b = byte then .ok ((), rest) else .error (.unknownDiscriminant field)

def enum {α : Type} (decode : UInt8 → Except WitnessError α) : Reader WitnessError α := fun bs =>
  match bs with
  | [] => .error .truncated
  | b :: rest => (decode b).map (·, rest)

def i64 : Reader WitnessError Int64 := fun bs =>
  (Reader.u64 .truncated bs).map fun p => (p.1.toInt64, p.2)

def optional {α : Type} (value : Reader WitnessError α) : Reader WitnessError (Option α) := fun bs =>
  match bs with
  | [] => .error .truncated
  | b :: rest =>
    if b = 0 then .ok (none, rest)
    else if b = 1 then (value rest).map fun p => (some p.1, p.2)
    else .error (.unknownDiscriminant "optional tag")

def fixedOptional (n : Nat) : Reader WitnessError (Option (FixedBytes n)) :=
  optional (Reader.fixed .truncated n)

def boolOptional : Reader WitnessError (Option Bool) := fun bs =>
  match bs with
  | [] => .error .truncated
  | b :: rest =>
    if b = 0 then .ok (none, rest)
    else if b = 1 then .ok (some false, rest)
    else if b = 2 then .ok (some true, rest)
    else .error (.unknownDiscriminant "optional bool")

def record : Reader WitnessError (Id × ParsedRecord) := do
  expect formatVersion "format"
  expect hashAlgorithmSha256 "hash algorithm"
  let journalId ← Reader.fixed .truncated 16
  let epoch ← Reader.u64 .truncated
  let sequence ← Reader.u64 .truncated
  let previousHash ← Reader.fixed .truncated 32
  let eventId ← Reader.fixed .truncated 16
  let requestId ← Reader.fixed .truncated 16
  let runtimeInstanceId ← Reader.fixed .truncated 16
  let bootId ← Reader.fixed .truncated 16
  let principal ← Reader.fixed .truncated 32
  let invocation ← enum invocation
  let action ← enum action
  let resourceKind ← enum resourceKind
  let resource ← Reader.fixed .truncated 32
  let resourceGeneration ← Reader.u64 .truncated
  let policyVersion ← Reader.u64 .truncated
  let policyDigest ← Reader.fixed .truncated 32
  let decisionId ← fixedOptional 16
  let rule ← fixedOptional 16
  let decision ← boolOptional
  let reason ← optional (enum reason)
  let requestDigest ← Reader.fixed .truncated 32
  let resultDigest ← fixedOptional 32
  let wallTimeNs ← i64
  let monotonicNs ← Reader.u64 .truncated
  let stage ← enum stage
  let outcome ← enum outcome
  let recoveryLink ← fixedOptional 16
  let pathClass ← optional (enum disclosure)
  let deviceClass ← optional (enum disclosure)
  let correlationDigest ← fixedOptional 32
  pure (journalId, ⟨epoch, sequence, previousHash, eventId, requestId, runtimeInstanceId, bootId,
    principal, invocation, action, resourceKind, resource, resourceGeneration, policyVersion,
    policyDigest, decisionId, rule, decision, reason, requestDigest, resultDigest, wallTimeNs,
    monotonicNs, stage, outcome, recoveryLink, pathClass, deviceClass, correlationDigest⟩)

end Decoder

def decodeRecord (bytes : Bytes) : Except WitnessError DecodedRecord := do
  if bytes.length > maxRecordBytes then
    throw (.boundExceeded "record")
  let (journalId, record) ← Reader.whole Decoder.record .nonCanonicalEncoding bytes
  validateRecord record
  pure ⟨journalId, record, ⟨journalId, bytes⟩⟩

/-- The chain hash of a stored record; `sha256` is a parameter of the development. -/
def hashRecord (sha256 : Hasher) (record : RecordBytes) : Digest :=
  sha256 (hashDomain ++ [formatVersion] ++ record.journalId.val
    ++ toBe 8 record.bytes.length ++ record.bytes)

/-! Reading back what was written, field by field. -/

theorem invocation_code (x : Invocation) : invocation x.code = .ok x := by cases x <;> rfl
theorem action_code (x : WitnessAction) : action x.code = .ok x := by cases x <;> rfl
theorem resourceKind_code (x : WitnessResourceKind) : resourceKind x.code = .ok x := by
  cases x <;> rfl
theorem stage_code (x : WitnessStage) : stage x.code = .ok x := by cases x <;> rfl
theorem outcome_code (x : WitnessOutcome) : outcome x.code = .ok x := by cases x <;> rfl
theorem disclosure_code (x : DisclosureClass) : disclosure x.code = .ok x := by cases x <;> rfl
theorem reason_code (x : ReasonCode) : reason x.code = .ok x := by cases x <;> rfl

namespace Decoder
variable {α β : Type} {decode : UInt8 → Except WitnessError α}

theorem enum_reads {code : α → UInt8}
    (h : ∀ a, decode (code a) = .ok a) : Reads (enum decode) (fun a => [code a]) := by
  intro a rest
  simp [enum, h, Except.map]

theorem i64_reads : Reads i64 (fun x => u64Be x.toUInt64) := by
  intro a rest
  have h := Reader.u64_reads WitnessError.truncated a.toUInt64 rest
  simp [i64, h, Except.map]

theorem optional_reads {value : Reader WitnessError α} {w : α → Bytes} (h : Reads value w) :
    Reads (optional value) (fun o => match o with | none => [0] | some a => 1 :: w a) := by
  intro o rest
  cases o with
  | none => simp [optional]
  | some a => simp [optional, h a rest, Except.map]

theorem fixedOptional_reads (n : Nat) : Reads (fixedOptional n) putFixedOptional := by
  intro o rest
  have h := optional_reads (Reader.fixed_reads WitnessError.truncated n) o rest
  cases o <;> exact h

theorem enumOptional_reads {code : α → UInt8}
    (h : ∀ a, decode (code a) = .ok a) : Reads (optional (enum decode)) (putEnumOptional code) := by
  intro o rest
  have h' := optional_reads (enum_reads h) o rest
  cases o <;> exact h'

theorem boolOptional_reads : Reads boolOptional putBoolOptional := by
  intro o rest
  match o with
  | none => rfl
  | some false => rfl
  | some true => rfl

theorem expect_bind (byte : UInt8) (field : String) (f : Unit → Reader WitnessError β)
    (rest : Bytes) : (expect byte field >>= f) ([byte] ++ rest) = f () rest :=
  bind_of_ok (by simp [expect])

theorem record_reads : Reads record (fun p => recordLayout p.1 p.2) := by
  rintro ⟨journalId, r⟩ rest
  simp only [record, recordLayout, List.append_assoc]
  simp only [expect_bind, bind_of_ok (Reader.fixed_reads WitnessError.truncated _ _ _),
    bind_of_ok (Reader.u64_reads WitnessError.truncated _ _),
    bind_of_ok (enum_reads invocation_code _ _), bind_of_ok (enum_reads action_code _ _),
    bind_of_ok (enum_reads resourceKind_code _ _), bind_of_ok (fixedOptional_reads _ _ _),
    bind_of_ok (boolOptional_reads _ _), bind_of_ok (enumOptional_reads reason_code _ _),
    bind_of_ok (i64_reads _ _), bind_of_ok (enum_reads stage_code _ _),
    bind_of_ok (enum_reads outcome_code _ _), bind_of_ok (enumOptional_reads disclosure_code _ _)]
  rfl

end Decoder

theorem encodeRecord_ok_iff (journalId : Id) (record : WitnessRecord) (bytes : RecordBytes) :
    encodeRecord journalId record = .ok bytes ↔
      validRecord record = true ∧ (recordLayout journalId record).length ≤ maxRecordBytes ∧
      bytes = ⟨journalId, recordLayout journalId record⟩ := by
  unfold encodeRecord
  simp only [Except.bind_eq_ok]
  constructor
  · rintro ⟨_, hv, h⟩
    split at h
    · cases h
    · rename_i hl
      cases h
      exact ⟨(validateRecord_ok_iff record).mp hv, by omega, rfl⟩
  · rintro ⟨hv, hl, rfl⟩
    exact ⟨(), (validateRecord_ok_iff record).mpr hv, by rw [if_neg (by omega)]⟩

theorem decodeRecord_encodeRecord {journalId : Id} {record : WitnessRecord} {bytes : RecordBytes}
    (h : encodeRecord journalId record = .ok bytes) :
    decodeRecord bytes.bytes = .ok ⟨journalId, record, bytes⟩ := by
  obtain ⟨hv, hl, rfl⟩ := (encodeRecord_ok_iff _ _ _).mp h
  have hw := Reader.whole_of_reads Decoder.record_reads WitnessError.nonCanonicalEncoding
    (journalId, record)
  simp only at hw
  simp [decodeRecord, hw, (validateRecord_ok_iff record).mpr hv, Nat.not_lt.mpr hl, bind,
    Except.bind, pure, Except.pure]

end Ferrocrate.Witness

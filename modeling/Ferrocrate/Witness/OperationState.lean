import Ferrocrate.Witness.Record

/-! The durable state of one operation, `witness/journal/state.rs`: its 343-byte form and
the digest that binds later records of the request to the received one. -/
namespace Ferrocrate.Witness
open Lib Lib.Reader

def stateReceived : UInt8 := 1
def stateAllowed : UInt8 := 2
def stateComplete : UInt8 := 3
def stateUnknown : UInt8 := 4

structure OperationState where
  state : UInt8
  executionGeneration : UInt64
  pendingGeneration : UInt64
  requestId : Id
  runtimeId : Id
  bootId : Id
  principal : Digest
  invocation : UInt8
  action : UInt8
  resourceKind : UInt8
  resource : Digest
  resourceGeneration : UInt64
  policyVersion : UInt64
  policyDigest : Digest
  requestDigest : Digest
  pathClass : UInt8
  deviceClass : UInt8
  correlationDigest : Option Digest
  decisionId : Id
  decisionDigest : Digest
  unknownEventId : Id
  bindingDigest : Digest

def bindingDomain : Bytes := "FERROCRATE-REQUEST-BINDING-V2".toUTF8.toList

def disclosureCode : Option DisclosureClass → UInt8
  | none => 0
  | some value => value.code

def bindingPreimage (record : WitnessRecord) : Bytes :=
  bindingDomain ++ (u64Be record.epoch ++ (record.runtimeInstanceId.val ++ (record.bootId.val
  ++ (record.principal.val ++ ([record.invocation.code] ++ ([record.action.code]
  ++ ([record.resourceKind.code] ++ (record.resource.val ++ (u64Be record.resourceGeneration
  ++ (u64Be record.policyVersion ++ (record.policyDigest.val ++ (record.requestDigest.val
  ++ ([disclosureCode record.pathClass] ++ ([disclosureCode record.deviceClass]
  ++ (match record.correlationDigest with | some value => 1 :: value.val | none => [0])
  ))))))))))))))

def requestBindingDigest (sha256 : Hasher) (record : WitnessRecord) : Digest :=
  sha256 (bindingPreimage record)

namespace OperationState

def received (sha256 : Hasher) (record : WitnessRecord) (executionGeneration : UInt64) :
    OperationState where
  state := stateReceived
  executionGeneration := executionGeneration
  pendingGeneration := 1
  requestId := record.requestId
  runtimeId := record.runtimeInstanceId
  bootId := record.bootId
  principal := record.principal
  invocation := record.invocation.code
  action := record.action.code
  resourceKind := record.resourceKind.code
  resource := record.resource
  resourceGeneration := record.resourceGeneration
  policyVersion := record.policyVersion
  policyDigest := record.policyDigest
  requestDigest := record.requestDigest
  pathClass := disclosureCode record.pathClass
  deviceClass := disclosureCode record.deviceClass
  correlationDigest := record.correlationDigest
  decisionId := .zero 16
  decisionDigest := .zero 32
  unknownEventId := .zero 16
  bindingDigest := requestBindingDigest sha256 record

def bindingMatches (sha256 : Hasher) (s : OperationState) (record : WitnessRecord) : Bool :=
  s.requestId = record.requestId && s.bindingDigest = requestBindingDigest sha256 record

def terminalMatches (sha256 : Hasher) (s : OperationState) (record : WitnessRecord) :
    Bool :=
  s.bindingMatches sha256 record && record.decisionId = some s.decisionId

def putCorrelation : Option Digest → Bytes
  | some value => 1 :: value.val
  | none => 0 :: List.replicate 32 0

def encode (s : OperationState) : Bytes :=
  [s.state] ++ (u64Be s.executionGeneration ++ (u64Be s.pendingGeneration ++ (s.requestId.val
  ++ (s.runtimeId.val ++ (s.bootId.val ++ (s.principal.val ++ ([s.invocation] ++ ([s.action]
  ++ ([s.resourceKind] ++ (s.resource.val ++ (u64Be s.resourceGeneration
  ++ (u64Be s.policyVersion ++ (s.policyDigest.val ++ (s.requestDigest.val ++ ([s.pathClass]
  ++ ([s.deviceClass] ++ (putCorrelation s.correlationDigest ++ (s.decisionId.val
  ++ (s.decisionDigest.val ++ (s.unknownEventId.val ++ s.bindingDigest.val))))))))))))))))))))

def correlation : Reader Unit (Option Digest) := do
  let tag ← Reader.u8 ()
  let value ← Reader.fixed () 32
  if tag = 0 then
    if value.val.any (· ≠ 0) then throw () else pure none
  else if tag = 1 then pure (some value)
  else throw ()

def fields : Reader Unit OperationState := do
  let state ← Reader.u8 ()
  let executionGeneration ← Reader.u64 ()
  let pendingGeneration ← Reader.u64 ()
  let requestId ← Reader.fixed () 16
  let runtimeId ← Reader.fixed () 16
  let bootId ← Reader.fixed () 16
  let principal ← Reader.fixed () 32
  let invocation ← Reader.u8 ()
  let action ← Reader.u8 ()
  let resourceKind ← Reader.u8 ()
  let resource ← Reader.fixed () 32
  let resourceGeneration ← Reader.u64 ()
  let policyVersion ← Reader.u64 ()
  let policyDigest ← Reader.fixed () 32
  let requestDigest ← Reader.fixed () 32
  let pathClass ← Reader.u8 ()
  let deviceClass ← Reader.u8 ()
  let correlationDigest ← correlation
  let decisionId ← Reader.fixed () 16
  let decisionDigest ← Reader.fixed () 32
  let unknownEventId ← Reader.fixed () 16
  let bindingDigest ← Reader.fixed () 32
  pure ⟨state, executionGeneration, pendingGeneration, requestId, runtimeId, bootId, principal,
    invocation, action, resourceKind, resource, resourceGeneration, policyVersion, policyDigest,
    requestDigest, pathClass, deviceClass, correlationDigest, decisionId, decisionDigest,
    unknownEventId, bindingDigest⟩

def decode (bytes : Bytes) : Option OperationState :=
  if bytes.length ≠ 343 then none else (Reader.whole fields () bytes).toOption

theorem length_putCorrelation (o : Option Digest) : (putCorrelation o).length = 33 := by
  cases o <;> simp [putCorrelation]

theorem length_encode (s : OperationState) : s.encode.length = 343 := by
  simp [encode, length_putCorrelation]

theorem correlation_reads : Reads correlation putCorrelation := by
  intro o rest
  cases o with
  | none =>
    have hz := Reader.fixed_reads () 32 (.zero 32) rest
    rw [putCorrelation, List.cons_append, ← List.singleton_append, correlation,
      bind_of_ok (Reader.u8_reads () 0 _)]
    exact (bind_of_ok hz).trans rfl
  | some value =>
    rw [putCorrelation, List.cons_append, ← List.singleton_append, correlation,
      bind_of_ok (Reader.u8_reads () 1 _)]
    exact (bind_of_ok (Reader.fixed_reads () 32 value rest)).trans rfl

theorem fields_reads : Reads fields encode := by
  intro s rest
  simp only [fields, encode, List.append_assoc]
  simp only [bind_of_ok (Reader.u8_reads () _ _), bind_of_ok (Reader.u64_reads () _ _),
    bind_of_ok (Reader.fixed_reads () _ _ _), bind_of_ok (correlation_reads _ _)]
  rfl

@[simp] theorem decode_encode (s : OperationState) : decode s.encode = some s := by
  rw [decode, if_neg (by simp [length_encode]), Reader.whole_of_reads fields_reads () s]
  rfl

end OperationState

end Ferrocrate.Witness

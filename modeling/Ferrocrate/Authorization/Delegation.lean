import Ferrocrate.Witness.Checkpoint

/-! Delegation capabilities of the CRI (`authorization/cri_delegation.rs`): signed claims, and
a verifier whose replay and revocation tables stand in one database. -/
namespace Ferrocrate.Authorization
open Lib
open Witness (Digest Ed25519 Signature)

inductive Action where
  | containerCreate | containerRun | containerExec | containerPause | containerResume
  | containerStop | containerKill | containerRestart | containerStart | containerDelete
  | containerRename | containerUpdate | containerArchiveWrite | imagePull | imageDelete
  | imageBuild | imageTag | imageReferenceWrite | volumeCreate | volumeDelete | volumeMount
  | volumeUnmount | volumeBackup | volumeRestore | networkCreate | networkDelete | networkAttach
  | networkDetach | deviceUse | policyReload | policyRollback | checkpointPublish
  | checkpointRecover | keyRotate | rootlessMapping
deriving DecidableEq

def Action.name : Action → String
  | .containerCreate => "container.create"
  | .containerRun => "container.run"
  | .containerExec => "container.exec"
  | .containerPause => "container.pause"
  | .containerResume => "container.resume"
  | .containerStop => "container.stop"
  | .containerKill => "container.kill"
  | .containerRestart => "container.restart"
  | .containerStart => "container.start"
  | .containerDelete => "container.delete"
  | .containerRename => "container.rename"
  | .containerUpdate => "container.update"
  | .containerArchiveWrite => "container.archive-write"
  | .imagePull => "image.pull"
  | .imageDelete => "image.delete"
  | .imageBuild => "image.build"
  | .imageTag => "image.tag"
  | .imageReferenceWrite => "image.reference-write"
  | .volumeCreate => "volume.create"
  | .volumeDelete => "volume.delete"
  | .volumeMount => "volume.mount"
  | .volumeUnmount => "volume.unmount"
  | .volumeBackup => "volume.backup"
  | .volumeRestore => "volume.restore"
  | .networkCreate => "network.create"
  | .networkDelete => "network.delete"
  | .networkAttach => "network.attach"
  | .networkDetach => "network.detach"
  | .deviceUse => "device.use"
  | .policyReload => "policy.reload"
  | .policyRollback => "policy.rollback"
  | .checkpointPublish => "witness.checkpoint-publish"
  | .checkpointRecover => "witness.checkpoint-recover"
  | .keyRotate => "witness.key-rotate"
  | .rootlessMapping => "rootless.mapping"

inductive Role where
  | administrator | operator | developer | auditor | runtimeCleanup

structure ResolvedPrincipal where
  id : String
  role : Role

inductive DelegationError where
  | malformed | bounds | untrustedKey | signature | expired | scope | attenuation | replay | revoked
  | keyRevoked | replayStore | replayMigrationRequired
deriving DecidableEq

def maxTextBytes : Nat := 512
def maxScopeItems : Nat := 64
def maxCanonicalBytes : Nat := 64 * 1024

structure CriDelegationClaims where
  issuer : String
  keyId : String
  transportSubject : String
  audience : String
  delegatedPrincipal : String
  allowedActions : List Action
  allowedResources : List String
  nonce : String
  deadlineUnixMs : UInt64
  bootId : String
  policyDigest : Digest
deriving DecidableEq

def putText (value : String) : Bytes := u32Be value.utf8ByteSize ++ value.toUTF8.toList

namespace CriDelegationClaims

def wireDomain : Bytes := "ferrocrate/cri-delegation/v1".toUTF8.toList ++ [0]

def signingBytes (c : CriDelegationClaims) : Bytes :=
  wireDomain ++ ([c.issuer, c.keyId, c.transportSubject, c.audience, c.delegatedPrincipal].flatMap
    putText ++ (u32Be c.allowedActions.length ++ (c.allowedActions.flatMap
      (fun action => putText ("\"" ++ action.name ++ "\"")) ++ (u32Be c.allowedResources.length
        ++ (c.allowedResources.flatMap putText ++ (putText c.nonce ++ (u64Be c.deadlineUnixMs
          ++ (putText c.bootId ++ c.policyDigest.val))))))))

def outOfBounds (value : String) : Bool := value.isEmpty || maxTextBytes < value.utf8ByteSize

def validate (c : CriDelegationClaims) : Except DelegationError Unit :=
  if [c.issuer, c.keyId, c.transportSubject, c.audience, c.delegatedPrincipal, c.nonce,
      c.bootId].any outOfBounds = true
      ∨ c.allowedActions = [] ∨ c.allowedActions.length > maxScopeItems
      ∨ c.allowedResources = [] ∨ c.allowedResources.length > maxScopeItems
      ∨ c.allowedResources.any outOfBounds = true then .error .bounds
  else if c.signingBytes.length > maxCanonicalBytes then .error .bounds
  else .ok ()

def identity (c : CriDelegationClaims) : String × String × String := (c.issuer, c.keyId, c.nonce)

def tableKey (domain : String) (c : CriDelegationClaims) : Bytes :=
  domain.toUTF8.toList ++ [0] ++ [c.issuer, c.keyId, c.nonce].flatMap putText

def replayKey (c : CriDelegationClaims) : Bytes := c.tableKey "ferrocrate/cri-delegation-replay/v1"

def revocationKey (c : CriDelegationClaims) : Bytes :=
  c.tableKey "ferrocrate/cri-delegation-revocation/v1"

end CriDelegationClaims

structure DelegationAssertion where
  claims : CriDelegationClaims
  signature : Signature

section Verifier
variable (ed : Ed25519)

structure DelegationTrustKey where
  issuer : String
  keyId : String
  key : ed.VerifyingKey
  role : Role

structure CriDelegationVerifier where
  keys : List ((String × String) × (ed.VerifyingKey × Role))
  audience : String
  bootId : String
  policyDigest : Digest

end Verifier

structure DelegationStore where
  replay : List Bytes
  revocations : List (Bytes × UInt64)
  keyRevocations : List ((String × String) × UInt64)

inductive StoreFailure where
  | lock | select | insert | checkpoint
deriving DecidableEq

namespace DelegationStore

def empty : DelegationStore := ⟨[], [], []⟩

def keyRevoked (s : DelegationStore) (issuer keyId : String) : Bool :=
  s.keyRevocations.any (·.1 = (issuer, keyId))

def revoked (s : DelegationStore) (c : CriDelegationClaims) : Bool :=
  s.revocations.any (·.1 = c.revocationKey)

def insertReplay (s : DelegationStore) (key : Bytes) : DelegationStore × Nat :=
  if key ∈ s.replay then (s, 0) else ({ s with replay := key :: s.replay }, 1)

def insertRevocation (s : DelegationStore) (key : Bytes) (now : UInt64) : DelegationStore :=
  if s.revocations.any (·.1 = key) then s
  else { s with revocations := (key, now) :: s.revocations }

def insertKeyRevocation (s : DelegationStore) (issuer keyId : String) (now : UInt64) :
    DelegationStore :=
  if s.keyRevoked issuer keyId then s
  else { s with keyRevocations := ((issuer, keyId), now) :: s.keyRevocations }

end DelegationStore

namespace CriDelegationVerifier
variable {ed : Ed25519}

def ofKeys (keys : List (DelegationTrustKey ed)) (audience bootId : String) (policyDigest : Digest) :
    CriDelegationVerifier ed :=
  ⟨keys.reverse.map fun item => ((item.issuer, item.keyId), (item.key, item.role)), audience, bootId,
    policyDigest⟩

def key (v : CriDelegationVerifier ed) (issuer keyId : String) : Option (ed.VerifyingKey × Role) :=
  v.keys.lookup (issuer, keyId)

def trusted (v : CriDelegationVerifier ed) (a : DelegationAssertion) :
    Except DelegationError Role := do
  a.claims.validate
  match v.key a.claims.issuer a.claims.keyId with
  | none => .error .untrustedKey
  | some (key, role) =>
    if ed.verify key a.claims.signingBytes a.signature then .ok role else .error .signature

def revoke (v : CriDelegationVerifier ed) (a : DelegationAssertion) (now : UInt64)
    (failure : Option StoreFailure) (s : DelegationStore) : Except DelegationError Unit × DelegationStore :=
  match v.trusted a with
  | .error e => (.error e, s)
  | .ok _ =>
    if failure = some .lock ∨ failure = some .insert then (.error .replayStore, s)
    else
      let s := s.insertRevocation a.claims.revocationKey now
      if failure = some .checkpoint then (.error .replayStore, s) else (.ok (), s)

def revokeKey (v : CriDelegationVerifier ed) (issuer keyId : String) (now : UInt64)
    (failure : Option StoreFailure) (s : DelegationStore) : Except DelegationError Unit × DelegationStore :=
  if issuer.isEmpty ∨ keyId.isEmpty then (.error .bounds, s)
  else if (v.key issuer keyId).isNone then (.error .untrustedKey, s)
  else if failure = some .lock ∨ failure = some .insert then (.error .replayStore, s)
  else
    let s := s.insertKeyRevocation issuer keyId now
    if failure = some .checkpoint then (.error .replayStore, s) else (.ok (), s)

end CriDelegationVerifier

structure DelegationRequest where
  assertion : DelegationAssertion
  transportSubject : String
  action : Action
  resource : String
  now : UInt64

namespace CriDelegationVerifier
variable {ed : Ed25519}

def verifyKey (v : CriDelegationVerifier ed) (r : DelegationRequest) (failure : Option StoreFailure)
    (s : DelegationStore) : Except DelegationError Role := do
  let c := r.assertion.claims
  c.validate
  match v.key c.issuer c.keyId with
  | none => .error .untrustedKey
  | some (key, role) =>
    if failure = some .lock ∨ failure = some .select then .error .replayStore
    else if s.keyRevoked c.issuer c.keyId then .error .keyRevoked
    else if ed.verify key c.signingBytes r.assertion.signature then .ok role
    else .error .signature

def outOfScope (v : CriDelegationVerifier ed) (r : DelegationRequest) : Bool :=
  let c := r.assertion.claims
  c.transportSubject ≠ r.transportSubject ∨ c.audience ≠ v.audience ∨ c.bootId ≠ v.bootId
    ∨ c.policyDigest ≠ v.policyDigest ∨ r.action ∉ c.allowedActions
    ∨ r.resource ∉ c.allowedResources

def refusal (v : CriDelegationVerifier ed) (r : DelegationRequest) (s : DelegationStore) :
    Option DelegationError :=
  let c := r.assertion.claims
  if s.revoked c then some .revoked
  else if c.deadlineUnixMs < r.now then some .expired
  else if v.outOfScope r then some .scope
  else none

def verifyReplay (v : CriDelegationVerifier ed) (r : DelegationRequest) (role : Role)
    (failure : Option StoreFailure) (s : DelegationStore) :
    Except DelegationError ResolvedPrincipal × DelegationStore :=
  let c := r.assertion.claims
  if failure = some .lock ∨ failure = some .select then (.error .replayStore, s)
  else match v.refusal r s with
    | some e => (.error e, s)
    | none =>
      if failure = some .insert then (.error .replayStore, s)
      else
        let (s, inserted) := s.insertReplay c.replayKey
        if inserted = 0 then (.error .replay, s)
        else if failure = some .checkpoint then (.error .replayStore, s)
        else (.ok ⟨c.delegatedPrincipal, role⟩, s)

end CriDelegationVerifier
end Ferrocrate.Authorization

import Ferrocrate.Netd.Desired

/-! From a frame to a dispatched request (`server_dispatch.rs`). -/
namespace Ferrocrate.Netd
open Lib
open Lib.Program
open Authorization
open Witness (Id)
variable {κ γ : Type} (sv : Services κ γ)

structure Dispatch where
  envelope : SignedEnvelope
  receipt : EffectReceipt
  requestId : String
  operationId : Id
  nonce : Id
deriving DecidableEq

def validateFrame (uid : UInt32) (frame : Bytes) : Handler sv Unit := do
  let h ← get
  rejectIf (uid ≠ h.server.uid) (reject .unauthorizedPeer "unexpected Unix peer UID")
  rejectIf (frame.length < 4 ∨ frame.length > maxFrameBytes + 4)
    (reject .oversizedFrame "invalid frame length")
  rejectIf (ofBe (frame.take 4) > maxFrameBytes ∨ ofBe (frame.take 4) ≠ frame.length - 4)
    (reject .oversizedFrame "invalid frame length")

def validateGrantedHandshake (identity : Option (AuthorizationServiceMode × String))
    (handshake : ServiceHandshake) : Bool :=
  match identity with
  | none => true
  | some (expected, boot) =>
    (AuthorizationServiceMode.parse handshake.mode handshake.policyDigest).toOption.any
      (fun peer => (expected.requireMatch peer).isOk) && handshake.instanceBoot = boot

def refuseUngranted (bytes : Bytes) (now : UInt64) : Handler sv GrantedEnvelope := do
  let legacy ← okOr (sv.pk.readSigned bytes) (reject .invalidFrame "invalid JSON")
  let h ← get
  let policy ← ofExcept (reject · "policy rejected request") (h.server.policy.validate legacy now)
  modify fun h => h.withPolicy policy
  throw (reject .missingGrant "privileged request requires a grant")

def readGranted (bytes : Bytes) (now : UInt64) : Handler sv GrantedEnvelope :=
  match sv.pk.readGranted bytes with
  | some granted => pure granted
  | none => refuseUngranted sv bytes now

def grantedReceipt (h : Host sv) (granted : GrantedEnvelope) : EffectReceipt :=
  EffectReceipt.fromRequest sv.pk (sv.net.netnsInode h.server.kernel) granted.envelope.request
    granted.resourceGeneration granted.envelope.epoch granted.envelope.revision

def rollbackAndRefuse (envelope : SignedEnvelope) (code : RejectionCode) (reason : String) :
    Handler sv Unit := do
  rollback envelope.request.overlayId envelope.epoch envelope.revision
  throw (reject code reason)

def refuseGrant (envelope : SignedEnvelope) : Except RejectionCode Unit → Handler sv Unit
  | .ok () => pure ()
  | .error code => rollbackAndRefuse sv envelope code "authorization grant rejected"

def spendGrant (granted : GrantedEnvelope) (now : UInt64) : Handler sv Dispatch := do
  let envelope := granted.envelope
  let (action, params) ← ofExcept (reject · "invalid normalized parameters")
    (requestParameters sv.pk envelope.request)
  let h ← get
  runIf (h.owned.requestIsQuarantined envelope.request)
    (rollbackAndRefuse sv envelope .policyViolation
      "resource has unverifiable legacy ownership and requires operator reconciliation")
  let receipt := grantedReceipt sv h granted
  let consumed ← consumeGrant granted.grant action granted.resourceUuid
    granted.resourceGeneration params receipt now
  refuseGrant sv envelope consumed
  whenFails persist do
    rollback envelope.request.overlayId envelope.epoch envelope.revision
    let _ ← recordGrantFailure granted.grant.claims.requestId granted.grant.claims.nonce
      receipt.identity "failed to persist revision floor"
    throw (reject .busy "failed to persist revision floor")
  return ⟨envelope, receipt, granted.grant.claims.requestId, granted.grant.claims.operationId,
    granted.grant.claims.nonce⟩

def prepareDispatch (uid : UInt32) (frame : Bytes) (now : UInt64) : Handler sv Dispatch := do
  validateFrame sv uid frame
  tryLegacyFrame sv (frame.drop 4) now
  let granted ← readGranted sv (frame.drop 4) now
  let h ← get
  rejectIf (validateGrantedHandshake h.server.authorizationIdentity granted.handshake = false)
    (reject .policyViolation "authorization service identity mismatch")
  let policy ← ofExcept (reject · "policy rejected request")
    (h.server.policy.validate granted.envelope now)
  modify fun h => h.withPolicy policy
  spendGrant sv granted now

end Ferrocrate.Netd

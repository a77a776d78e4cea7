import Mathlib.Data.Prod.Lex
import Ferrocrate.Netd.Protocol

/-! The policy of the network helper (`policy.rs`): an envelope is taken when it is signed, alive
and newer than the floor of its scope, and taking it raises the floor. -/
namespace Ferrocrate.Netd
open Lib

structure RevisionFloor where
  epoch : UInt64
  revision : UInt64
  leaseExpiresUnixSecs : UInt64
deriving DecidableEq

abbrev Version := ℕ ×ₗ ℕ

def version (epoch revision : UInt64) : Version := toLex (epoch.toNat, revision.toNat)

namespace RevisionFloor

def version (floor : RevisionFloor) : Version := Netd.version floor.epoch floor.revision

def refuses (floor : RevisionFloor) (epoch revision lease : UInt64) : Bool :=
  epoch < floor.epoch || (epoch = floor.epoch && (revision < floor.revision
    || (revision = floor.revision && lease ≤ floor.leaseExpiresUnixSecs)))

theorem refuses_of_lt {floor : RevisionFloor} {epoch revision : UInt64} (lease : UInt64)
    (h : Netd.version epoch revision < floor.version) :
    floor.refuses epoch revision lease = true := by
  rw [version, Netd.version, Netd.version, Prod.Lex.toLex_lt_toLex] at h
  rcases h with h | ⟨hepoch, hrevision⟩
  · have hlt : epoch < floor.epoch := h
    simp [refuses, hlt]
  · have heq : epoch = floor.epoch := UInt64.toNat_inj.mp hepoch
    have hlt : revision < floor.revision := hrevision
    simp [refuses, heq, hlt]

theorem refuses_self (floor : RevisionFloor) :
    floor.refuses floor.epoch floor.revision floor.leaseExpiresUnixSecs = true := by
  simp [refuses]

end RevisionFloor

def SignedEnvelope.floor (envelope : SignedEnvelope) : RevisionFloor :=
  ⟨envelope.epoch, envelope.revision, envelope.leaseExpiresUnixSecs⟩

def DesiredStateEnvelope.floor (envelope : DesiredStateEnvelope) : RevisionFloor :=
  ⟨envelope.epoch, envelope.revision, envelope.leaseExpiresUnixSecs⟩

section Validation
variable (pk : Packages)

def dangerous : List Char :=
  [0x3b, 0x7c, 0x60, 0x24, 0x28, 0x29, 0x7b, 0x7d, 0x5b, 0x5d, 0x3c, 0x3e, 0x26, 0x0a, 0x0d].map
    Char.ofNat

def checkShellSafe (value : String) : Bool :=
  !value.toList.contains (Char.ofNat 0) && !dangerous.any (value.toList.contains ·)

def validateName (limit : Nat) (name : String) : Bool :=
  name.utf8ByteSize ≤ limit && !name.isEmpty && name.toList.head? != some '.'
    && name.toList.all (fun c => pk.isAlphanumeric c || c == '-' || c == '_' || c == '.')
    && checkShellSafe name

def validateInterfaceName (name : String) : Bool := validateName pk 15 name

def validateNetnsName (name : String) : Bool := validateName pk 255 name

def validatePeer (peer : PeerSpec) : Bool :=
  !peer.nodeId.isEmpty && peer.allowedIps.length ≤ maxRoutes && pk.isSocketAddr peer.endpoint
    && peer.allowedIps.all pk.isIpNet

def validateEndpoint (overlayId endpointId : String) : Bool :=
  validateInterfaceName pk overlayId && validateInterfaceName pk endpointId
    && validateInterfaceName pk ("fc-" ++ endpointId)

def validateRequest (request : NetdRequest) : Except RejectionCode Unit :=
  let valid := validateInterfaceName pk request.overlayId && match request with
    | .applyOverlay _ _ peers routes _ =>
      decide (peers.length ≤ maxPeers) && decide (routes.length ≤ maxRoutes)
        && routes.all pk.isIpNet && peers.all (validatePeer pk)
    | .attachEndpoint overlayId endpointId netns =>
      validateEndpoint pk overlayId endpointId && netns.all (validateNetnsName pk)
    | .detachEndpoint overlayId endpointId => validateEndpoint pk overlayId endpointId
    | .removeOverlay _ | .inspect _ => true
  if valid then .ok () else .error .policyViolation

def checkSignature (key : pk.ed.VerifyingKey) (signature : String) (message : Option Bytes) :
    Except RejectionCode Unit :=
  match pk.base64Decode signature, message with
  | none, _ => .error .invalidSignature
  | some _, none => .error .invalidFrame
  | some bytes, some message =>
    if h : bytes.length = 64 then
      if pk.ed.verify key message ⟨bytes, h⟩ then .ok () else .error .invalidSignature
    else .error .invalidSignature

end Validation

structure Policy (pk : Packages) where
  cluster : String
  node : String
  key : pk.ed.VerifyingKey
  revisions : OrdMap String RevisionFloor

def desiredScope : String := "__desired__"

namespace Policy
variable {pk : Packages}

def new (cluster node : String) (key : pk.ed.VerifyingKey) : Policy pk :=
  ⟨cluster, node, key, .empty⟩

def accept (p : Policy pk) (now : UInt64) (clusterId nodeId : String) (floor : RevisionFloor)
    (signature : String) (message : Option Bytes) (request : Except RejectionCode Unit)
    (scope : String) : Except RejectionCode (Policy pk) :=
  if clusterId ≠ p.cluster ∨ nodeId ≠ p.node then .error .policyViolation
  else if floor.leaseExpiresUnixSecs ≤ now then .error .expiredLease
  else do
    checkSignature pk p.key signature message
    request
    if (p.revisions.get scope).any
        (·.refuses floor.epoch floor.revision floor.leaseExpiresUnixSecs) then
      .error .staleRevision
    else .ok { p with revisions := p.revisions.insert scope floor }

def validateDesired (p : Policy pk) (envelope : DesiredStateEnvelope) (now : UInt64) :
    Except RejectionCode (Policy pk) :=
  p.accept now envelope.clusterId envelope.nodeId envelope.floor envelope.signature
    (pk.desiredJson { envelope with signature := "" }) (.ok ()) desiredScope

def validate (p : Policy pk) (envelope : SignedEnvelope) (now : UInt64) :
    Except RejectionCode (Policy pk) :=
  p.accept now envelope.clusterId envelope.nodeId envelope.floor envelope.signature
    (pk.signedJson { envelope with signature := "" }) (validateRequest pk envelope.request)
    envelope.request.overlayId

def rollback (p : Policy pk) (scope : String) (epoch revision : UInt64) : Policy pk :=
  if (p.revisions.get scope).any fun floor => floor.epoch = epoch ∧ floor.revision = revision then
    { p with revisions := p.revisions.erase scope }
  else p

variable {p p' : Policy pk} {now : UInt64}

def Passes (p : Policy pk) (scope : String) (floor : RevisionFloor) : Prop :=
  ∀ old, p.revisions.get scope = some old →
    old.refuses floor.epoch floor.revision floor.leaseExpiresUnixSecs = false

def raised (p : Policy pk) (scope : String) (floor : RevisionFloor) : Policy pk :=
  { p with revisions := p.revisions.insert scope floor }

variable {scope : String}

theorem accept_eq_ok {clusterId nodeId : String} {floor : RevisionFloor} {signature : String}
    {message : Option Bytes} {request : Except RejectionCode Unit}
    (h : p.accept now clusterId nodeId floor signature message request scope = .ok p') :
    p' = p.raised scope floor ∧ p.Passes scope floor := by
  obtain ⟨-, h⟩ := Except.ite_error_eq_ok.mp h
  obtain ⟨-, h⟩ := Except.ite_error_eq_ok.mp h
  obtain ⟨-, -, h⟩ := Except.bind_eq_ok.mp h
  obtain ⟨-, -, h⟩ := Except.bind_eq_ok.mp h
  obtain ⟨hstale, h⟩ := Except.ite_error_eq_ok.mp h
  refine ⟨(Except.ok.inj h).symm, fun old hold => ?_⟩
  simpa [hold] using hstale

theorem validateDesired_eq_ok {envelope : DesiredStateEnvelope}
    (h : p.validateDesired envelope now = .ok p') :
    p' = p.raised desiredScope envelope.floor ∧ p.Passes desiredScope envelope.floor :=
  accept_eq_ok h

theorem validate_eq_ok {envelope : SignedEnvelope} (h : p.validate envelope now = .ok p') :
    p' = p.raised envelope.request.overlayId envelope.floor ∧
      p.Passes envelope.request.overlayId envelope.floor :=
  accept_eq_ok h

theorem Passes.raised_ne {floor : RevisionFloor} (h : p.Passes scope floor) :
    (p.raised scope floor).revisions ≠ p.revisions := by
  intro heq
  have hold : p.revisions.get scope = some floor := by
    rw [← heq, raised, OrdMap.get_insert_self]
  have hself := h floor hold
  rw [floor.refuses_self] at hself
  cases hself

theorem Passes.version_le {floor old : RevisionFloor} (h : p.Passes scope floor)
    (hold : p.revisions.get scope = some old) : old.version ≤ floor.version := by
  by_contra hlt
  have hrefused := old.refuses_of_lt floor.leaseExpiresUnixSecs (not_le.mp hlt)
  rw [h old hold] at hrefused
  cases hrefused

theorem rollback_raised (p : Policy pk) (scope : String) (floor : RevisionFloor) :
    (p.raised scope floor).rollback scope floor.epoch floor.revision
      = { p with revisions := (p.revisions.insert scope floor).erase scope } := by
  rw [rollback, raised, OrdMap.get_insert_self, if_pos]
  simp

theorem rollback_raised_eq_iff (p : Policy pk) (scope : String) (floor : RevisionFloor) :
    ((p.raised scope floor).rollback scope floor.epoch floor.revision).revisions = p.revisions ↔
      p.revisions.get scope = none := by
  rw [rollback_raised]
  constructor
  · intro h
    rw [← h, OrdMap.get_erase_self]
  · exact OrdMap.erase_insert p.revisions floor

end Policy
end Ferrocrate.Netd

import Mathlib.Data.Finset.Union
import Mathlib.Data.Finset.SDiff
import Ferrocrate.Netd.Binding

/-! The signed bundle of operations that brings a node to a desired state
(`agent/desired_authorization.rs`), as the agent checks it. The agent's copies of the request types
have the fields of the helper's, which are used here. -/
namespace Ferrocrate.Agent
open Lib
open Netd
open Authorization (GrantAction GrantParameters)
open Witness (Digest)

structure DesiredAuthorizationBundle where
  schemaVersion : UInt16
  clusterId : String
  nodeId : String
  clusterEpoch : UInt64
  revision : UInt64
  leaseExpiresUnix : Int64
  desiredStateDigest : Digest
  operations : List GrantedEnvelope
  signature : String

inductive BundleError where
  | invalid | binding
deriving DecidableEq

structure AgentPackages extends Packages where
  readBundle : Bytes → Option DesiredAuthorizationBundle
  bundleJson : DesiredAuthorizationBundle → Option Bytes
  encodeToVec : DesiredState → Bytes

def desiredAuthorizationVersion : UInt16 := 1

section Packages
variable (pk : AgentPackages)

def operationFields (request : NetdRequest) :
    Except BundleError (GrantAction × String × List (String × String)) :=
  match request with
  | .applyOverlay overlayId mode peers routes addresses =>
    let interfaces := overlayInterfaces pk.toPackages overlayId
    match pk.peersJson peers, pk.stringsJson routes, pk.stringsJson addresses with
    | some peers, some routes, some addresses => .ok (.networkCreate, "overlay.apply",
        [("overlay_id", overlayId), ("overlay_mode", mode.asStr),
          ("bridge_ifname", interfaces.bridge), ("wireguard_ifname", interfaces.wireguard),
          ("address_interface", interfaces.bridge),
          ("route_interface", match mode with
            | .wireGuard => interfaces.wireguard
            | .bridgeOnly => interfaces.bridge),
          ("forwarding_required", if mode = .wireGuard then "true" else "false"),
          ("peers", peers), ("routes", routes), ("addresses", addresses)])
    | _, _, _ => .error .invalid
  | .removeOverlay overlayId =>
    let interfaces := overlayInterfaces pk.toPackages overlayId
    .ok (.networkDelete, "overlay.delete", [("overlay_id", overlayId),
      ("bridge_ifname", interfaces.bridge), ("wireguard_ifname", interfaces.wireguard)])
  | .attachEndpoint _ _ _ | .detachEndpoint _ _ | .inspect _ => .error .binding

def operationParameters (request : NetdRequest) :
    Except BundleError (GrantAction × GrantParameters) := do
  let (action, name, fields) ← operationFields pk request
  match GrantParameters.new name fields [] with
  | .ok parameters => return (action, parameters)
  | .error _ => .error .binding

namespace DesiredAuthorizationBundle

def validateEnvelopeBinding (b : DesiredAuthorizationBundle) (operation : GrantedEnvelope) :
    Except BundleError Unit :=
  let envelope := operation.envelope
  let claims := operation.grant.claims
  if envelope.clusterId ≠ b.clusterId ∨ envelope.nodeId ≠ b.nodeId
      ∨ envelope.epoch ≠ b.clusterEpoch ∨ envelope.revision ≠ b.revision
      ∨ envelope.leaseExpiresUnixSecs ≠ b.leaseExpiresUnix.toUInt64
      ∨ operation.resourceUuid ≠ claims.resource.resourceUuid
      ∨ operation.resourceGeneration ≠ claims.resource.generation then .error .binding
  else do
    let (action, parameters) ← operationParameters pk envelope.request
    if claims.action ≠ action ∨ claims.parameterDigest ≠ parameters.digest pk.sha256 then
      .error .binding
    else .ok ()

def validateEnvelopeBindings (b : DesiredAuthorizationBundle) : Except BundleError Unit :=
  b.operations.forM (b.validateEnvelopeBinding pk)

def verifySignature (b : DesiredAuthorizationBundle) (key : pk.ed.VerifyingKey) :
    Except BundleError Unit :=
  match pk.base64Decode b.signature, pk.bundleJson { b with signature := "" } with
  | some bytes, some message =>
    if h : bytes.length = 64 then
      if pk.ed.verify key message ⟨bytes, h⟩ then .ok () else .error .invalid
    else .error .invalid
  | _, _ => .error .invalid

def decodeAndVerify (encoded : Bytes) (desired : DesiredState) (key : pk.ed.VerifyingKey)
    (nowUnix : Int64) : Except BundleError DesiredAuthorizationBundle :=
  match pk.readBundle encoded with
  | none => .error .invalid
  | some b =>
    if b.schemaVersion ≠ desiredAuthorizationVersion ∨ b.clusterId ≠ desired.clusterId
        ∨ b.clusterEpoch ≠ desired.clusterEpoch ∨ b.revision ≠ desired.revision
        ∨ b.leaseExpiresUnix ≠ desired.leaseExpiresUnix ∨ b.leaseExpiresUnix ≤ nowUnix
        ∨ b.desiredStateDigest ≠ pk.sha256 (pk.encodeToVec desired) then .error .binding
    else do
      b.verifySignature pk key
      b.validateEnvelopeBindings pk
      return b

def matchesOverlay (overlay : OverlayState) (mode : OverlayMode) (peers : List PeerSpec)
    (routes addresses : List String) : Bool :=
  peers = overlay.peers.map (fun peer =>
      ⟨peer.nodeId, pk.base64Encode peer.publicKey, peer.endpoint, peer.allowedIps⟩)
    ∧ routes = overlay.routes ∧ addresses = overlay.addresses ∧ overlay.wireguard.isSome
    ∧ (mode = .wireGuard ↔ overlay.wireguard = some true)

structure Transition where
  applies : Finset String
  removals : Finset String

def transitionStep (desired : DesiredState) (t : Transition) (operation : GrantedEnvelope) :
    Except BundleError Transition :=
  match operation.envelope.request with
  | .applyOverlay overlayId mode peers routes addresses =>
    match desired.overlays.find? (·.overlayId = overlayId) with
    | none => .error .binding
    | some overlay =>
      if matchesOverlay pk overlay mode peers routes addresses = false ∨ overlayId ∈ t.applies then
        .error .binding
      else .ok { t with applies := insert overlayId t.applies }
  | .removeOverlay overlayId =>
    if overlayId ∈ t.removals then .error .binding
    else .ok { t with removals := insert overlayId t.removals }
  | .attachEndpoint _ _ _ | .detachEndpoint _ _ | .inspect _ => .error .binding

def validateTransition (b : DesiredAuthorizationBundle) (desired : DesiredState)
    (current : List String) : Except BundleError Unit := do
  let wanted := (desired.overlays.map (·.overlayId)).toFinset
  let t ← b.operations.foldlM (transitionStep pk desired) ⟨∅, ∅⟩
  if t.applies ≠ wanted ∨ t.removals ≠ current.toFinset \ wanted then .error .binding else .ok ()

end DesiredAuthorizationBundle
end Packages
end Ferrocrate.Agent

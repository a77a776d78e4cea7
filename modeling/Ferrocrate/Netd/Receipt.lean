import Ferrocrate.Netd.Protocol

/-! What a request leaves in the kernel, as a receipt (`effect_receipt.rs`), the names of an
overlay's interfaces (`interface_identity.rs`, `managed_overlay.rs`) and the parameters its grant
is bound to (`request_binding.rs`). -/
namespace Ferrocrate.Netd
open Lib
open Authorization (GrantAction GrantParameters)
open Witness (Digest)

structure OverlayInterfaces where
  bridge : String
  wireguard : String

def hex (bs : Bytes) : String :=
  String.ofList (bs.flatMap fun b => [(b.toNat / 16).digitChar, (b.toNat % 16).digitChar])

structure OverlayReceipt where
  overlayId : String
  bridgeIfname : String
  wireguardIfname : Option String
  mode : OverlayMode
  legacyIdentity : Bool
  generation : UInt64
  peerDigest : Digest
  addressDigest : Digest
  routeDigest : Digest
  policyEpoch : UInt64
  policyRevision : UInt64
  forwardingRequired : Bool
  expectedExists : Bool
deriving DecidableEq

structure EndpointReceipt where
  endpointId : String
  overlayId : String
  generation : UInt64
  netnsDigest : Digest
  bridgeMasterDigest : Digest
  netnsName : Option String
  netnsInode : Option UInt64
  expectedExists : Bool
  legacyIdentity : Bool
deriving DecidableEq

inductive EffectReceipt where
  | overlay (receipt : OverlayReceipt)
  | endpoint (receipt : EndpointReceipt)
deriving DecidableEq

namespace EffectReceipt

def routeInterface : EffectReceipt → Option String
  | overlay r => some (match r.mode with
    | .wireGuard => r.wireguardIfname.getD r.bridgeIfname
    | .bridgeOnly => r.bridgeIfname)
  | endpoint _ => none

def overlayMode : EffectReceipt → Option OverlayMode
  | overlay r => some r.mode
  | endpoint _ => none

def endpointOverlay : EffectReceipt → Option String
  | endpoint r => some r.overlayId
  | overlay _ => none

def isLegacyIdentity : EffectReceipt → Bool
  | overlay r => r.legacyIdentity
  | endpoint r => r.legacyIdentity

def identity : EffectReceipt → String
  | overlay r => "overlay:" ++ r.overlayId
  | endpoint r => "endpoint:" ++ r.endpointId

def expectedExists : EffectReceipt → Bool
  | overlay r => r.expectedExists
  | endpoint r => r.expectedExists

end EffectReceipt

section Packages
variable (pk : Packages)

def overlayInterfaces (overlayId : String) : OverlayInterfaces :=
  let digest := pk.sha256 ("ferrocrate.overlay-interfaces.v1".toUTF8.toList ++ [0]
    ++ overlayId.toUTF8.toList)
  let suffix := hex (digest.val.take 6)
  ⟨"fb" ++ suffix, "fw" ++ suffix⟩

def digest (json : Option Bytes) : Digest := pk.sha256 (json.getD [])

def digestSorted (values : List String) : Digest :=
  digest pk ((pk.stringsJson (values.insertionSort (· ≤ ·))).map (·.toUTF8.toList))

def PeerKeyLe (a b : String × String × List String) : Prop :=
  a.1 < b.1 ∨ (a.1 = b.1 ∧ (a.2.1 < b.2.1 ∨ (a.2.1 = b.2.1 ∧ a.2.2 ≤ b.2.2)))

instance : DecidableRel PeerKeyLe := fun _ _ => inferInstanceAs (Decidable (_ ∨ _))

def peerDigest (peers : List PeerSpec) : Digest :=
  digest pk (pk.peerKeysJson ((peers.map fun peer =>
    (peer.publicKey, peer.endpoint, peer.allowedIps.insertionSort (· ≤ ·))).insertionSort
      PeerKeyLe))

def emptyReceipt (overlayId : String) (removes : Bool) (generation epoch revision : UInt64) :
    EffectReceipt :=
  let interfaces := overlayInterfaces pk overlayId
  .overlay {
    overlayId := overlayId
    bridgeIfname := interfaces.bridge
    wireguardIfname := if removes then some interfaces.wireguard else none
    mode := .bridgeOnly
    legacyIdentity := false
    generation := generation
    peerDigest := .zero 32
    addressDigest := .zero 32
    routeDigest := .zero 32
    policyEpoch := epoch
    policyRevision := revision
    forwardingRequired := false
    expectedExists := !removes
  }

def EffectReceipt.fromRequest (netnsInode : String → Option UInt64) (request : NetdRequest)
    (generation epoch revision : UInt64) : EffectReceipt :=
  match request with
  | .applyOverlay overlayId mode peers routes addresses =>
    let interfaces := overlayInterfaces pk overlayId
    .overlay {
      overlayId := overlayId
      bridgeIfname := interfaces.bridge
      wireguardIfname := some interfaces.wireguard
      mode := mode
      legacyIdentity := false
      generation := generation
      peerDigest := peerDigest pk peers
      addressDigest := digestSorted pk addresses
      routeDigest := digestSorted pk routes
      policyEpoch := epoch
      policyRevision := revision
      forwardingRequired := decide (mode = .wireGuard)
      expectedExists := true
    }
  | .removeOverlay overlayId => emptyReceipt pk overlayId true generation epoch revision
  | .inspect overlayId => emptyReceipt pk overlayId false generation epoch revision
  | .attachEndpoint overlayId endpointId netns => .endpoint {
      endpointId := endpointId
      overlayId := overlayId
      generation := generation
      netnsDigest := digest pk (pk.optionJson netns)
      bridgeMasterDigest := digest pk (pk.stringJson (overlayInterfaces pk overlayId).bridge)
      netnsName := netns
      netnsInode := netns.bind netnsInode
      expectedExists := true
      legacyIdentity := false
    }
  | .detachEndpoint overlayId endpointId => .endpoint {
      endpointId := endpointId
      overlayId := overlayId
      generation := generation
      netnsDigest := .zero 32
      bridgeMasterDigest := digest pk (pk.stringJson (overlayInterfaces pk overlayId).bridge)
      netnsName := none
      netnsInode := none
      expectedExists := false
      legacyIdentity := false
    }

def applyFields (overlayId : String) (mode : OverlayMode) (peers : List PeerSpec)
    (routes addresses : List String) : Option (List (String × String)) := do
  let interfaces := overlayInterfaces pk overlayId
  let peers ← pk.peersJson peers
  let routes ← pk.stringsJson routes
  let addresses ← pk.stringsJson addresses
  return [("overlay_id", overlayId), ("overlay_mode", mode.asStr),
    ("bridge_ifname", interfaces.bridge), ("wireguard_ifname", interfaces.wireguard),
    ("address_interface", interfaces.bridge),
    ("route_interface", match mode with
      | .wireGuard => interfaces.wireguard
      | .bridgeOnly => interfaces.bridge),
    ("forwarding_required", if mode = .wireGuard then "true" else "false"),
    ("peers", peers), ("routes", routes), ("addresses", addresses)]

def requestFields (request : NetdRequest) :
    Option (GrantAction × String × List (String × String)) :=
  match request with
  | .applyOverlay overlayId mode peers routes addresses =>
    (applyFields pk overlayId mode peers routes addresses).map fun fields =>
      (.networkCreate, "overlay.apply", fields)
  | .removeOverlay overlayId =>
    let interfaces := overlayInterfaces pk overlayId
    some (.networkDelete, "overlay.delete", [("overlay_id", overlayId),
      ("bridge_ifname", interfaces.bridge), ("wireguard_ifname", interfaces.wireguard)])
  | .attachEndpoint overlayId endpointId netns =>
    some (.networkAttach, "endpoint.attach", [("overlay_id", overlayId),
      ("bridge_ifname", (overlayInterfaces pk overlayId).bridge), ("endpoint_id", endpointId),
      ("netns", netns.getD "")])
  | .detachEndpoint overlayId endpointId =>
    some (.networkDetach, "endpoint.detach", [("overlay_id", overlayId),
      ("bridge_ifname", (overlayInterfaces pk overlayId).bridge), ("endpoint_id", endpointId)])
  | .inspect overlayId => some (.networkInspect, "overlay.inspect", [("overlay_id", overlayId)])

def requestParameters (request : NetdRequest) :
    Except RejectionCode (GrantAction × GrantParameters) :=
  match requestFields pk request with
  | none => .error .invalidFrame
  | some (action, operation, fields) =>
    match GrantParameters.new operation fields [] with
    | .ok parameters => .ok (action, parameters)
    | .error _ => .error .policyViolation

end Packages
end Ferrocrate.Netd

import Ferrocrate.Netd.Dispatch

/-! The executors of granted requests (`server_execute.rs`, `server_endpoint.rs`). -/
namespace Ferrocrate.Netd
open Lib
open Lib.Program
variable {κ γ : Type} (sv : Services κ γ)

def recordRefusal (d : Dispatch) (effectStarted : Bool) (reason identity : String) :
    Handler sv Bool :=
  if effectStarted then do
    let _ ← markOverlayIntent identity .outcomeUnknown
    recordGrantUnknown d.nonce identity d.receipt
  else recordGrantFailure d.requestId d.nonce identity reason

def rejectEffect (d : Dispatch) (effectStarted : Bool) (code : RejectionCode)
    (reason identity : String) : Handler sv Unit := do
  ensure (recordRefusal sv d effectStarted reason identity)
    (reject .busy "failure witness unavailable")
  throw (reject code reason)

def checkpoint (d : Dispatch) (identity : String) (phase : IntentPhase) : Handler sv Unit :=
  whenFails (markOverlayIntent identity phase)
    (rejectEffect sv d true .busy "failed to persist mutation phase" identity)

def effectStep (d : Dispatch) (identity : String) (call : KernelCall) (phase : IntentPhase)
    (reason : String) : Handler sv Unit := do
  whenFails (perform sv call) (rejectEffect sv d true .busy reason identity)
  checkpoint sv d identity phase

def finish (d : Dispatch) (identity outcome : String) (response : NetdResponse) :
    Handler sv NetdResponse := do
  ensure (recordGrantResult d.requestId d.nonce identity outcome)
    (reject .busy "result witness unavailable")
  return response

def storeOwnership (d : Dispatch) (identity reason : String)
    (beforehand : Handler sv Unit) : Handler sv Unit :=
  whenFails persist do
    beforehand
    modifyOwned (·.quarantine ("ambiguous-" ++ identity))
    rejectEffect sv d true .busy reason identity

def applyWireguard (d : Dispatch) (identity : String) (interfaces : OverlayInterfaces)
    (createdBridge : Bool) (addresses : List String) (peers : List PeerSpec) :
    Handler sv Unit := do
  whenFails (perform sv (.applyWireguard interfaces.wireguard addresses peers)) do
    runIf createdBridge do
      let _ ← perform sv (.removeOverlay interfaces.bridge)
    rejectEffect sv d true .busy "failed to apply required WireGuard overlay" identity
  checkpoint sv d identity .wireguardConfigured
  effectStep sv d identity .ensureForwarding .forwardingEnabled
    "failed to enable routed overlay forwarding"

def applyRoute (d : Dispatch) (identity routeInterface : String) (route : String × Nat) :
    Handler sv Unit := do
  whenFails (perform sv (.applyRoutes routeInterface [route.1])) do
    rollback d.envelope.request.overlayId d.envelope.epoch d.envelope.revision
    rejectEffect sv d true .busy "failed to apply overlay route" identity
  checkpoint sv d identity (.routeApplied route.2)

def obsolete (previousInterface routeInterface : String) (previous current : List String) :
    List String :=
  if previousInterface = routeInterface then previous.filter (· ∉ current) else previous

def executeApply (d : Dispatch) (overlayId : String) (mode : OverlayMode) (peers : List PeerSpec)
    (routes addresses : List String) : Handler sv NetdResponse := do
  let interfaces := overlayInterfaces sv.pk overlayId
  let identity := "overlay:" ++ overlayId
  let h ← get
  let createdBridge := !h.owned.overlays.contains overlayId
  let previousRoutes := (h.owned.routes.get overlayId).getD []
  let previousAddresses := (h.owned.addresses.get overlayId).getD []
  let previousReceipt := h.owned.effectReceipts.get identity
  let previousInterface := previousReceipt.bind EffectReceipt.routeInterface
  let leavesWireguard := previousReceipt.bind EffectReceipt.overlayMode = some .wireGuard
    ∧ mode = .bridgeOnly
  whenFails (beginOverlayIntent d.operationId "apply" d.receipt routes addresses)
    (rejectEffect sv d false .busy "failed to persist overlay mutation intent" identity)
  runIf createdBridge do
    effectStep sv d identity (.createOverlay interfaces.bridge) .bridgeCreated
      "failed to create overlay bridge"
  runIf (mode = .wireGuard) do
    applyWireguard sv d identity interfaces createdBridge addresses peers
  let routeInterface := match mode with
    | .wireGuard => interfaces.wireguard
    | .bridgeOnly => interfaces.bridge
  addresses.zipIdx.forM fun address =>
    effectStep sv d identity (.applyAddresses routeInterface [address.1])
      (.addressApplied address.2) "failed to apply bridge gateway address"
  routes.zipIdx.forM (applyRoute sv d identity routeInterface)
  forSome previousInterface fun previousInterface =>
    (obsolete previousInterface routeInterface previousRoutes routes).zipIdx.forM fun route =>
      effectStep sv d identity (.removeRoutes previousInterface [route.1])
        (.staleRouteRemoved route.2) "failed to remove obsolete overlay route"
  let previousInterface := previousInterface.getD interfaces.bridge
  (obsolete previousInterface routeInterface previousAddresses addresses).zipIdx.forM fun address =>
    effectStep sv d identity (.removeAddresses previousInterface [address.1])
      (.staleAddressRemoved address.2) "failed to remove obsolete bridge address"
  runIf leavesWireguard do
    effectStep sv d identity (.removeWireguard interfaces.wireguard) .staleWireguardRemoved
      "failed to remove obsolete WireGuard overlay"
  modifyOwned fun o => { o with
    overlays := o.overlays.insert overlayId ()
    routes := o.routes.insert overlayId routes
    addresses := o.addresses.insert overlayId addresses
    effectReceipts := o.effectReceipts.insert identity d.receipt }.succeeded identity
  storeOwnership sv d identity "failed to persist overlay ownership"
    (rollback overlayId d.envelope.epoch d.envelope.revision)
  finish sv d identity "applied" .applied

def removeOwned (d : Dispatch) (overlayId : String) : Handler sv Unit := do
  let interfaces := overlayInterfaces sv.pk overlayId
  let identity := "overlay:" ++ overlayId
  let h ← get
  let routeInterface := ((h.owned.effectReceipts.get identity).bind
    EffectReceipt.routeInterface).getD interfaces.wireguard
  ((h.owned.routes.get overlayId).getD []).zipIdx.forM fun route =>
    effectStep sv d identity (.removeRoutes routeInterface [route.1]) (.routeRemoved route.2)
      "failed to remove overlay route"
  ((h.owned.addresses.get overlayId).getD []).zipIdx.forM fun address =>
    effectStep sv d identity (.removeAddresses routeInterface [address.1])
      (.addressRemoved address.2) "failed to remove bridge address"
  let h ← get
  runIf (sv.net.observeLink h.server.kernel interfaces.wireguard) do
    whenFails (perform sv (.removeWireguard interfaces.wireguard))
      (rejectEffect sv d true .busy "failed to remove WireGuard overlay" identity)
  let h ← get
  runIf (!sv.net.observeLink h.server.kernel interfaces.wireguard) do
    checkpoint sv d identity .wireguardRemoved
  effectStep sv d identity (.removeOverlay interfaces.bridge) .bridgeRemoved
    "failed to remove overlay bridge"
  modifyOwned fun o => { o with
    routes := o.routes.erase overlayId
    addresses := o.addresses.erase overlayId
    overlays := o.overlays.erase overlayId }

def executeRemove (d : Dispatch) (overlayId : String) : Handler sv NetdResponse := do
  let identity := "overlay:" ++ overlayId
  let h ← get
  let wasOwned := h.owned.overlays.contains overlayId
  whenFails (beginOverlayIntent d.operationId "remove" d.receipt [] [])
    (rejectEffect sv d false .busy "failed to persist overlay deletion intent" identity)
  runIf wasOwned (removeOwned sv d overlayId)
  modifyOwned fun o =>
    { o with effectReceipts := o.effectReceipts.erase identity }.succeeded identity
  whenFails persist do
    modifyOwned (·.quarantine ("ambiguous-" ++ identity))
    rejectEffect sv d wasOwned .busy "failed to persist overlay deletion" identity
  finish sv d identity "removed" .removed

def abandonEndpoint (d : Dispatch) (endpointId : String) (code : RejectionCode)
    (reason : String) : Handler sv Unit := do
  let _ ← perform sv (.removeEndpoint endpointId)
  rejectEffect sv d true code reason ("endpoint:" ++ endpointId)

def attachAgain (d : Dispatch) (overlayId endpointId existing : String) :
    Handler sv NetdResponse := do
  let identity := "endpoint:" ++ endpointId
  let h ← get
  runIf (existing ≠ overlayId ∨ h.owned.effectReceipts.get identity ≠ some d.receipt
      ∨ sv.net.observeEffect h.server.kernel d.receipt ≠ .exact) do
    rejectEffect sv d false .policyViolation "endpoint identity conflict" identity
  finish sv d identity "attached_idempotent" .attached

def attachNew (d : Dispatch) (overlayId endpointId : String) (netns : Option String) :
    Handler sv NetdResponse := do
  let identity := "endpoint:" ++ endpointId
  let bridge := (overlayInterfaces sv.pk overlayId).bridge
  whenFails (beginOverlayIntent d.operationId "attach" d.receipt [] [])
    (rejectEffect sv d false .busy "failed to persist endpoint mutation intent" identity)
  effectStep sv d identity (.createEndpoint endpointId ("fc-" ++ endpointId)) .endpointLinkCreated
    "failed to create endpoint veth"
  runIf (¬(validateInterfaceName sv.pk endpointId ∧ validateInterfaceName sv.pk bridge)) do
    abandonEndpoint sv d endpointId .policyViolation "invalid endpoint interface"
  whenFails (perform sv (.attachEndpoint endpointId bridge))
    (abandonEndpoint sv d endpointId .busy "failed to attach endpoint veth")
  checkpoint sv d identity .endpointMasterSet
  forSome netns fun netns => do
    whenFails (perform sv (.moveEndpoint ("fc-" ++ endpointId) netns))
      (abandonEndpoint sv d endpointId .busy "failed to move endpoint into namespace")
    checkpoint sv d identity .endpointNetnsMoved
  modifyOwned fun o => { o with
    endpoints := o.endpoints.insert endpointId overlayId
    effectReceipts := o.effectReceipts.insert identity d.receipt }.succeeded identity
  storeOwnership sv d identity "failed to persist endpoint ownership" (pure ())
  finish sv d identity "attached" .attached

def executeAttach (d : Dispatch) (overlayId endpointId : String) (netns : Option String) :
    Handler sv NetdResponse := do
  let h ← get
  match h.owned.endpoints.get endpointId with
  | some existing => attachAgain sv d overlayId endpointId existing
  | none => attachNew sv d overlayId endpointId netns

def detachUnknown (d : Dispatch) (identity reason : String) : Handler sv Unit := do
  let _ ← markOverlayIntent identity .outcomeUnknown
  ensure (recordGrantUnknown d.nonce identity d.receipt)
    (reject .busy "failure witness unavailable")
  throw (reject .busy reason)

def refuseDetach (d : Dispatch) (identity : String) (code : RejectionCode)
    (recorded reason : String) : Handler sv Unit := do
  let _ ← recordGrantFailure d.requestId d.nonce identity recorded
  throw (reject code reason)

def executeDetach (d : Dispatch) (overlayId endpointId : String) : Handler sv NetdResponse := do
  let identity := "endpoint:" ++ endpointId
  let h ← get
  runIf ((h.owned.endpoints.get endpointId).any (· ≠ overlayId)) do
    refuseDetach sv d identity .policyViolation "endpoint is attached to a different overlay"
      "endpoint is not attached to the authorized overlay"
  whenFails (beginOverlayIntent d.operationId "detach" d.receipt [] [])
    (refuseDetach sv d identity .busy "failed to persist endpoint deletion intent"
      "failed to persist endpoint deletion intent")
  runIf (h.owned.endpoints.contains endpointId) do
    whenFails (perform sv (.removeEndpoint endpointId))
      (detachUnknown sv d identity "failed to destroy endpoint veth")
    whenFails (markOverlayIntent identity .endpointLinkRemoved)
      (detachUnknown sv d identity "failed to persist mutation phase")
    modifyOwned fun o => { o with endpoints := o.endpoints.erase endpointId }
  modifyOwned fun o =>
    { o with effectReceipts := o.effectReceipts.erase identity }.succeeded identity
  whenFails persist do
    modifyOwned (·.quarantine ("ambiguous-" ++ identity))
    detachUnknown sv d identity "failed to persist endpoint deletion"
  finish sv d identity "detached" .detached

def execute (d : Dispatch) : Handler sv NetdResponse :=
  match d.envelope.request with
  | .applyOverlay overlayId mode peers routes addresses =>
    executeApply sv d overlayId mode peers routes addresses
  | .removeOverlay overlayId => executeRemove sv d overlayId
  | .attachEndpoint overlayId endpointId netns => executeAttach sv d overlayId endpointId netns
  | .detachEndpoint overlayId endpointId => executeDetach sv d overlayId endpointId
  | .inspect overlayId => finish sv d ("overlay:" ++ overlayId) "inspected"
      (.snapshot overlayId d.envelope.revision)

def handlePeer (uid : UInt32) (frame : Bytes) (now : UInt64) : Handler sv NetdResponse := do
  let d ← prepareDispatch sv uid frame now
  execute sv d

end Ferrocrate.Netd

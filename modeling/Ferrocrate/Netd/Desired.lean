import Ferrocrate.Netd.Server

/-! Desired states without grants (`legacy_desired.rs`): one signed list of every overlay, taken
only while authorization is disabled. -/
namespace Ferrocrate.Netd
open Lib
open Lib.Program
open Authorization
open Witness (Id)
variable {κ γ : Type} (sv : Services κ γ)

def legacyOperationId (revision : UInt64) : Id :=
  ⟨u64Be revision ++ List.replicate 8 0, by simp⟩

def legacyStep (identity : String) (call : KernelCall) (phase : IntentPhase) :
    Program RejectionCode (Host sv) Unit := do
  ensure (perform sv call) .busy
  ensure (markOverlayIntent identity phase) .busy

def legacyRemove (envelope : DesiredStateEnvelope) (overlay : String) :
    Program RejectionCode (Host sv) Unit := do
  let interfaces := overlayInterfaces sv.pk overlay
  let identity := "overlay:" ++ overlay
  let receipt := emptyReceipt sv.pk overlay true envelope.revision envelope.epoch envelope.revision
  ensure (beginOverlayIntent (legacyOperationId envelope.revision) "legacy_remove" receipt [] [])
    .busy
  let h ← get
  let routeInterface := ((h.owned.effectReceipts.get identity).bind
    EffectReceipt.routeInterface).getD interfaces.wireguard
  forSome (h.owned.routes.get overlay) fun routes =>
    legacyStep sv identity (.removeRoutes routeInterface routes) .routesRemoved
  forSome (h.owned.addresses.get overlay) fun addresses =>
    legacyStep sv identity (.removeAddresses interfaces.bridge addresses) .addressesRemoved
  let h ← get
  runIf (sv.net.observeLink h.server.kernel interfaces.wireguard) do
    legacyStep sv identity (.removeWireguard interfaces.wireguard) .wireguardRemoved
  legacyStep sv identity (.removeOverlay interfaces.bridge) .bridgeRemoved
  modifyOwned fun o => { o with
    overlays := o.overlays.erase overlay
    routes := o.routes.erase overlay
    addresses := o.addresses.erase overlay
    effectReceipts := o.effectReceipts.erase identity }.succeeded identity

def PeerSpec.ofDesired (peer : DesiredPeer) : PeerSpec :=
  ⟨peer.nodeId, sv.pk.base64Encode peer.publicKey, peer.endpoint, peer.allowedIps⟩

def legacyWireguard (identity name : String) (peers : List PeerSpec) :
    Program RejectionCode (Host sv) Unit := do
  legacyStep sv identity (.applyWireguard name [] peers) .wireguardConfigured
  legacyStep sv identity .ensureForwarding .forwardingEnabled

def legacyApply (envelope : DesiredStateEnvelope) (overlay : OverlayState) :
    Program RejectionCode (Host sv) Unit := do
  let mode := if overlay.wireguard = some true then OverlayMode.wireGuard else .bridgeOnly
  let interfaces := overlayInterfaces sv.pk overlay.overlayId
  let peers := overlay.peers.map (PeerSpec.ofDesired sv)
  let identity := "overlay:" ++ overlay.overlayId
  let h ← get
  let receipt := EffectReceipt.fromRequest sv.pk (sv.net.netnsInode h.server.kernel)
    (.applyOverlay overlay.overlayId mode peers overlay.routes overlay.addresses)
    envelope.revision envelope.epoch envelope.revision
  ensure (beginOverlayIntent (legacyOperationId envelope.revision) "legacy_apply" receipt
    overlay.routes overlay.addresses) .busy
  let h ← get
  let previousRoutes := (h.owned.routes.get overlay.overlayId).getD []
  let previousReceipt := h.owned.effectReceipts.get identity
  let previousInterface := previousReceipt.bind EffectReceipt.routeInterface
  runIf (!sv.net.observeLink h.server.kernel interfaces.bridge) do
    legacyStep sv identity (.createOverlay interfaces.bridge) .bridgeCreated
  runIf (mode = .wireGuard) do
    legacyWireguard sv identity interfaces.wireguard peers
  let routeInterface := match mode with
    | .wireGuard => interfaces.wireguard
    | .bridgeOnly => interfaces.bridge
  legacyStep sv identity (.applyAddresses interfaces.bridge overlay.addresses) .addressesApplied
  let removed := if previousInterface = some routeInterface then
    previousRoutes.filter (· ∉ overlay.routes) else previousRoutes
  legacyStep sv identity (.removeRoutes (previousInterface.getD routeInterface) removed)
    .staleRoutesRemoved
  runIf (previousReceipt.bind EffectReceipt.overlayMode = some .wireGuard ∧ mode = .bridgeOnly) do
    legacyStep sv identity (.removeWireguard interfaces.wireguard) .staleWireguardRemoved
  legacyStep sv identity (.applyRoutes routeInterface overlay.routes) .routesApplied
  modifyOwned fun o => { o with
    overlays := o.overlays.insert overlay.overlayId ()
    addresses := o.addresses.insert overlay.overlayId overlay.addresses
    routes := o.routes.insert overlay.overlayId overlay.routes
    effectReceipts := o.effectReceipts.insert identity receipt }.succeeded identity

def applyDesired (envelope : DesiredStateEnvelope) :
    Program RejectionCode (Host sv) NetdResponse := do
  let desired ← okOr (sv.pk.decodeDesired envelope.desiredState) .invalidFrame
  rejectIf (desired.clusterId ≠ envelope.clusterId ∨ desired.clusterEpoch ≠ envelope.epoch
    ∨ desired.revision ≠ envelope.revision
    ∨ (max desired.leaseExpiresUnix.toInt 0).toNat ≠ envelope.leaseExpiresUnixSecs.toNat)
    .policyViolation
  rejectIf (desired.overlays.any (·.wireguard.isNone)) .invalidFrame
  let h ← get
  rejectIf (desired.overlays.any fun overlay => h.owned.overlayIsQuarantined overlay.overlayId)
    .policyViolation
  let wanted := desired.overlays.map (·.overlayId)
  (h.owned.overlays.keys.filter (· ∉ wanted)).forM (legacyRemove sv envelope)
  desired.overlays.forM (legacyApply sv envelope)
  ensure persist .busy
  return .applied

def applyLegacyDesired (envelope : DesiredStateEnvelope) :
    Program RejectionCode (Host sv) NetdResponse := do
  modify fun h => h.noting .applyLegacyDesired
  applyDesired sv envelope

def checkDesiredIdentity (desired : DesiredStateEnvelope) : Handler sv Unit := do
  let h ← get
  let (expected, boot) ← okOr h.server.authorizationIdentity
    (reject .policyViolation "service mode is not configured")
  rejectIf (expected.mode ≠ .disabled
    ∨ ¬(AuthorizationServiceMode.parse desired.handshake.mode desired.handshake.policyDigest
      ).toOption.any (fun peer => (expected.requireMatch peer).isOk)
    ∨ desired.handshake.instanceBoot ≠ boot)
    (reject .policyViolation
      "legacy desired state is available only on matching disabled service")

def admitDesired (desired : DesiredStateEnvelope) (now : UInt64) : Handler sv Unit := do
  checkDesiredIdentity sv desired
  let h ← get
  let policy ← ofExcept (reject · "legacy desired signature or revision rejected")
    (h.server.policy.validateDesired desired now)
  modify fun h => h.withPolicy policy
  whenFails persist do
    rollback desiredScope desired.epoch desired.revision
    throw (reject .busy "failed to persist desired revision floor")

def answerDesired (desired : DesiredStateEnvelope) :
    Except RejectionCode NetdResponse → Handler sv Unit
  | .ok response => throw response
  | .error code => do
    rollback desiredScope desired.epoch desired.revision
    throw (reject code "legacy desired mutation failed")

def tryLegacyFrame (bytes : Bytes) (now : UInt64) : Handler sv Unit := do
  rejectIf (sv.pk.readsGrantedDesired bytes) (reject .policyViolation
    "bulk desired-state grants are forbidden; submit one authorized mutation per resource")
  forSome (sv.pk.readDesired bytes) fun desired => do
    admitDesired sv desired now
    answerDesired sv desired (← caught (applyLegacyDesired sv desired))

end Ferrocrate.Netd

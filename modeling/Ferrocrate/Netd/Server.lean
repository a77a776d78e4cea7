import Ferrocrate.Netd.Policy
import Ferrocrate.Netd.Receipt

/-! The state of the network helper (`server_config.rs`), the kernel and grant interfaces it is
composed with (`kernel_ops.rs`, `grants.rs`), and what every request goes through: the ownership
journal, the mutation intents and the quarantine (`server_state.rs`, `server_grants.rs`). -/
namespace Ferrocrate.Netd
open Lib
open Authorization
open Witness (Id)

inductive KernelCall where
  | createOverlay (name : String)
  | removeOverlay (name : String)
  | createEndpoint (host container : String)
  | attachEndpoint (endpoint overlay : String)
  | moveEndpoint (endpoint netns : String)
  | removeEndpoint (endpoint : String)
  | applyAddresses (interface : String) (addresses : List String)
  | removeAddresses (interface : String) (addresses : List String)
  | applyRoutes (interface : String) (routes : List String)
  | removeRoutes (interface : String) (routes : List String)
  | applyWireguard (name : String) (addresses : List String) (peers : List PeerSpec)
  | removeWireguard (name : String)
  | ensureForwarding
deriving DecidableEq

inductive LiveEffectObservation where
  | exact | absent | mismatch | unknown
deriving DecidableEq

structure NetKernelOps (κ : Type) where
  observeLink : κ → String → Bool
  observeEffect : κ → EffectReceipt → LiveEffectObservation
  netnsInode : κ → String → Option UInt64
  perform : KernelCall → κ → Bool × κ

inductive GrantError where
  | locked | invalidSignature | wrongIssuer | wrongBoot | expired | actionMismatch
  | cleanupEscalation | resourceMismatch | parameterMismatch | cleanupProvenance | replay
  | notConsumed | resultConflict | oversized | io | encoding

structure ConsumedGrant where
  requestId : String
  nonce : Id

inductive RecoveryObservation where
  | consistent (exists_ : Bool)
  | conflict

structure GrantVerifierOps (γ : Type) where
  verifyAndConsume : HelperGrant → GrantAction → String → UInt64 → GrantParameters → UInt64 → γ →
    Except GrantError ConsumedGrant × γ
  armEffectTarget : ConsumedGrant → EffectReceipt → γ → Except GrantError Unit × γ
  recordResult : ConsumedGrant → String → String → γ → Bool × γ
  recordFailure : ConsumedGrant → String → String → γ → Bool × γ
  markOutcomeUnknown : Id → String → EffectReceipt → γ → Bool × γ
  reconcileUnknown : (EffectReceipt → RecoveryObservation) → γ → Bool × γ

structure Services (κ γ : Type) where
  pk : Packages
  net : NetKernelOps κ
  verifier : GrantVerifierOps γ

inductive IntentPhase where
  | pending | bridgeCreated | wireguardConfigured | forwardingEnabled
  | addressApplied (index : Nat) | routeApplied (index : Nat) | staleRouteRemoved (index : Nat)
  | staleAddressRemoved (index : Nat) | staleWireguardRemoved | routeRemoved (index : Nat)
  | addressRemoved (index : Nat) | wireguardRemoved | bridgeRemoved | endpointLinkCreated
  | endpointMasterSet | endpointNetnsMoved | endpointLinkRemoved | routesRemoved
  | addressesRemoved | addressesApplied | staleRoutesRemoved | routesApplied | outcomeUnknown
  | succeeded | recovered | notApplied | quarantined
deriving DecidableEq

structure OverlayMutationIntent where
  operationId : Id
  action : String
  prior : Option EffectReceipt
  desired : EffectReceipt
  phase : IntentPhase
  routes : List String
  addresses : List String
  observedPhases : List IntentPhase
deriving DecidableEq

structure Ownership where
  overlays : OrdSet String
  endpoints : OrdMap String String
  routes : OrdMap String (List String)
  addresses : OrdMap String (List String)
  effectReceipts : OrdMap String EffectReceipt
  quarantined : OrdSet String
  overlayIntents : OrdMap String OverlayMutationIntent
deriving DecidableEq

def Ownership.empty : Ownership := ⟨.empty, .empty, .empty, .empty, .empty, .empty, .empty⟩

structure PersistedState where
  owned : Ownership
  revisionFloors : OrdMap String RevisionFloor
deriving DecidableEq

structure JournalFrame where
  journalId : Id
  generation : UInt64
  state : PersistedState
deriving DecidableEq

/-- How replacing the journal file ends: done, failed with the old file still there, or failed
after the rename. -/
inductive StoreOutcome where
  | stored | failed | replaced

section Server
variable {κ γ : Type} (sv : Services κ γ)

structure NetdServer where
  uid : UInt32
  policy : Policy sv.pk
  grants : Option γ
  owned : Ownership
  authorizationIdentity : Option (AuthorizationServiceMode × String)
  /-- A journal is configured. -/
  journal : Bool
  journalId : Id
  journalGeneration : UInt64
  kernel : κ

inductive Call where
  | kernel (call : KernelCall)
  | beginOverlayIntent (identity : String)
  | applyLegacyDesired
  | rollback (scope : String)
  | stored (frame : JournalFrame)
deriving DecidableEq

structure Host where
  server : NetdServer sv
  file : Option JournalFrame
  stores : List StoreOutcome
  calls : List Call

abbrev Handler (α : Type) := Program NetdResponse (Host sv) α

end Server

namespace Host
variable {κ γ : Type} {sv : Services κ γ}

def owned (h : Host sv) : Ownership := h.server.owned

def floors (h : Host sv) : OrdMap String RevisionFloor := h.server.policy.revisions

def withOwned (h : Host sv) (owned : Ownership) : Host sv :=
  { h with server := { h.server with owned := owned } }

def withPolicy (h : Host sv) (policy : Policy sv.pk) : Host sv :=
  { h with server := { h.server with policy := policy } }

def withGrants (h : Host sv) (grants : Option γ) : Host sv :=
  { h with server := { h.server with grants := grants } }

def noting (h : Host sv) (call : Call) : Host sv := { h with calls := call :: h.calls }

def performed (h : Host sv) (call : KernelCall) (kernel : κ) : Host sv :=
  { h with server := { h.server with kernel := kernel } }.noting (.kernel call)

def frame (h : Host sv) (generation : UInt64) : JournalFrame :=
  ⟨h.server.journalId, generation, ⟨h.owned, h.floors⟩⟩

def stored (h : Host sv) (generation : UInt64) (stores : List StoreOutcome) : Host sv :=
  { h with file := some (h.frame generation), stores := stores }.noting
    (.stored (h.frame generation))

def counting (h : Host sv) (generation : UInt64) : Host sv :=
  { h with server := { h.server with journalGeneration := generation } }

end Host

section Operations
variable {κ γ ε : Type} (sv : Services κ γ)

def perform (call : KernelCall) : Program ε (Host sv) Bool := fun h =>
  (.ok (sv.net.perform call h.server.kernel).1,
    h.performed call (sv.net.perform call h.server.kernel).2)

variable {sv}

def modifyOwned (f : Ownership → Ownership) : Program ε (Host sv) Unit :=
  modify fun h => h.withOwned (f h.owned)

def rollback (scope : String) (epoch revision : UInt64) : Program ε (Host sv) Unit := do
  modify fun h => h.noting (.rollback scope)
  modify fun h => h.withPolicy (h.server.policy.rollback scope epoch revision)

def persist : Program ε (Host sv) Bool := fun h =>
  if h.server.journal then
    match checkedAdd h.server.journalGeneration 1 with
    | none => (.ok false, h)
    | some generation =>
      match h.stores with
      | [] => (.ok true, (h.stored generation []).counting generation)
      | .stored :: rest => (.ok true, (h.stored generation rest).counting generation)
      | .failed :: rest => (.ok false, { h with stores := rest })
      | .replaced :: rest => (.ok false, h.stored generation rest)
  else (.ok true, h)

def beginOverlayIntent (operationId : Id) (action : String) (desired : EffectReceipt)
    (routes addresses : List String) : Program ε (Host sv) Bool := do
  let identity := desired.identity
  modify fun h => h.noting (.beginOverlayIntent identity)
  let h ← get
  let previous := h.owned.overlayIntents.get identity
  modifyOwned fun o => { o with overlayIntents := o.overlayIntents.insert identity {
    operationId := operationId
    action := action
    prior := o.effectReceipts.get identity
    desired := desired
    phase := .pending
    routes := routes
    addresses := addresses
    observedPhases := []
  } }
  if ← persist then
    return true
  else
    modifyOwned fun o => { o with overlayIntents := match previous with
      | some previous => o.overlayIntents.insert identity previous
      | none => o.overlayIntents.erase identity }
    return false

def markOverlayIntent (identity : String) (phase : IntentPhase) : Program ε (Host sv) Bool := do
  modifyOwned fun o => { o with overlayIntents := o.overlayIntents.modify identity fun intent =>
    { intent with phase := phase, observedPhases := intent.observedPhases ++ [phase] } }
  persist

def Ownership.succeeded (o : Ownership) (identity : String) : Ownership :=
  { o with overlayIntents := o.overlayIntents.modify identity fun intent =>
    { intent with phase := .succeeded } }

def Ownership.quarantine (o : Ownership) (entry : String) : Ownership :=
  { o with quarantined := o.quarantined.insert entry () }

def endsWith (entry suffix : String) : Bool := suffix.toList.isSuffixOf entry.toList

namespace Ownership

def intentIsUnresolved (o : Ownership) (identity : String) : Bool :=
  (o.overlayIntents.get identity).any fun intent =>
    intent.phase ∉ [.succeeded, .recovered, .notApplied]

def identityIsQuarantined (o : Ownership) (identity : String) : Bool :=
  o.quarantined.keys.any (endsWith · identity) || o.intentIsUnresolved identity

def overlayIsQuarantined (o : Ownership) (overlay : String) : Bool :=
  o.identityIsQuarantined ("overlay:" ++ overlay)

def requestIsQuarantined (o : Ownership) (request : NetdRequest) : Bool :=
  o.overlayIsQuarantined request.overlayId || match request with
    | .attachEndpoint _ endpointId _ | .detachEndpoint _ endpointId =>
      o.identityIsQuarantined ("endpoint:" ++ endpointId)
    | .applyOverlay _ _ _ _ _ | .removeOverlay _ | .inspect _ => false

end Ownership

def mapGrantError : GrantError → RejectionCode
  | .replay => .grantReplay
  | .invalidSignature => .invalidSignature
  | _ => .invalidGrant

def withVerifier (missing : Bool) (f : γ → Bool × γ) : Program ε (Host sv) Bool := fun h =>
  match h.server.grants with
  | none => (.ok missing, h)
  | some verifier => (.ok (f verifier).1, h.withGrants (some (f verifier).2))

def consumeGrant (grant : HelperGrant) (action : GrantAction) (uuid : String)
    (generation : UInt64) (params : GrantParameters) (receipt : EffectReceipt) (now : UInt64) :
    Program ε (Host sv) (Except RejectionCode Unit) := fun h =>
  match h.server.grants with
  | none => (.ok (.error .missingGrant), h)
  | some verifier =>
    match sv.verifier.verifyAndConsume grant action uuid generation params now verifier with
    | (.error e, verifier) => (.ok (.error (mapGrantError e)), h.withGrants (some verifier))
    | (.ok consumed, verifier) =>
      match sv.verifier.armEffectTarget consumed receipt verifier with
      | (.error e, verifier) => (.ok (.error (mapGrantError e)), h.withGrants (some verifier))
      | (.ok (), verifier) => (.ok (.ok ()), h.withGrants (some verifier))

def recordGrantResult (requestId : String) (nonce : Id) (identity outcome : String) :
    Program ε (Host sv) Bool :=
  withVerifier true (sv.verifier.recordResult ⟨requestId, nonce⟩ identity outcome)

def recordGrantFailure (requestId : String) (nonce : Id) (identity outcome : String) :
    Program ε (Host sv) Bool :=
  withVerifier false (sv.verifier.recordFailure ⟨requestId, nonce⟩ identity outcome)

def recordGrantUnknown (nonce : Id) (identity : String) (receipt : EffectReceipt) :
    Program ε (Host sv) Bool :=
  withVerifier false (sv.verifier.markOutcomeUnknown nonce identity receipt)

end Operations
end Ferrocrate.Netd

import Ferrocrate.Netd.Execute

/-! Starting the network helper: what it makes of the ownership journal it finds (`load_journal`
of `server_state.rs`). -/
namespace Ferrocrate.Netd
open Lib
open Lib.Program
open Authorization
open Witness (Id)

def stripStart (start s : String) : Option String :=
  if start.toList.isPrefixOf s.toList then some (String.ofList (s.toList.drop start.length))
  else none

namespace Ownership

def verifiable (o : Ownership) (identity : String) : Bool :=
  (o.effectReceipts.get identity).any (!·.isLegacyIdentity)

def dropUnverifiable (o : Ownership) : Ownership :=
  let overlays := o.overlays.keys.filter fun overlay => !o.verifiable ("overlay:" ++ overlay)
  let endpoints := o.endpoints.keys.filter fun endpoint => !o.verifiable ("endpoint:" ++ endpoint)
  let o' := { o with
    overlays := o.overlays.retain fun overlay _ => o.verifiable ("overlay:" ++ overlay)
    endpoints := o.endpoints.retain fun endpoint _ => o.verifiable ("endpoint:" ++ endpoint) }
  (overlays.map ("legacy-overlay:" ++ ·) ++ endpoints.map ("legacy-endpoint:" ++ ·)).foldl
    quarantine o'

def doubtReceipts (observe : EffectReceipt → LiveEffectObservation) (o : Ownership) : Ownership :=
  (o.effectReceipts.entries.filter fun e => observe e.2 ≠ .exact).foldl
    (fun o e => o.quarantine ("ambiguous-" ++ e.1)) o

def release (o : Ownership) (identity : String) : Ownership :=
  { o with quarantined := o.quarantined.retain fun entry _ => !endsWith entry identity }

def settle (o : Ownership) (identity : String) (phase : IntentPhase) : Ownership :=
  { o with overlayIntents := o.overlayIntents.modify identity fun intent =>
    { intent with phase := phase } }

def adoptDesired (o : Ownership) (identity : String) (intent : OverlayMutationIntent) :
    Ownership :=
  let overlay := (stripStart "overlay:" identity).getD ""
  if intent.desired.expectedExists then
    let o := match stripStart "endpoint:" identity, intent.desired.endpointOverlay with
      | some endpoint, some parent => { o with endpoints := o.endpoints.insert endpoint parent }
      | some _, none => o
      | none, _ => { o with
        overlays := o.overlays.insert overlay ()
        routes := o.routes.insert overlay intent.routes
        addresses := o.addresses.insert overlay intent.addresses }
    { o with effectReceipts := o.effectReceipts.insert identity intent.desired }
  else
    let endpoints := match stripStart "endpoint:" identity with
      | some endpoint => o.endpoints.erase endpoint
      | none => o.endpoints
    { o with
      endpoints := endpoints
      overlays := o.overlays.erase overlay
      routes := o.routes.erase overlay
      addresses := o.addresses.erase overlay
      effectReceipts := o.effectReceipts.erase identity }

def restorePrior (o : Ownership) (identity : String) (prior : EffectReceipt) : Ownership :=
  let o := match stripStart "endpoint:" identity, prior.endpointOverlay with
    | some endpoint, some parent => { o with endpoints := o.endpoints.insert endpoint parent }
    | some _, none => o
    | none, _ =>
      { o with overlays := o.overlays.insert ((stripStart "overlay:" identity).getD "") () }
  { o with effectReceipts := o.effectReceipts.insert identity prior }

def recoverIntent (observe : EffectReceipt → LiveEffectObservation) (o : Ownership)
    (entry : String × OverlayMutationIntent) : Ownership :=
  let (identity, intent) := entry
  if intent.phase = .succeeded then o
  else if observe intent.desired = .exact then
    ((o.release identity).adoptDesired identity intent).settle identity .recovered
  else match intent.prior.filter (observe · = .exact) with
    | some prior => ((o.release identity).restorePrior identity prior).settle identity .notApplied
    | none => (o.quarantine ("ambiguous-" ++ identity)).settle identity .quarantined

def recovered (observe : EffectReceipt → LiveEffectObservation) (o : Ownership) : Ownership :=
  let o := o.dropUnverifiable.doubtReceipts observe
  o.overlayIntents.entries.foldl (recoverIntent observe) o

def observeUnknown (observe : EffectReceipt → LiveEffectObservation) (o : Ownership)
    (receipt : EffectReceipt) : RecoveryObservation :=
  let identity := receipt.identity
  let (name, owned) := match stripStart "overlay:" identity, stripStart "endpoint:" identity with
    | some name, _ => (name, o.overlays.contains name)
    | none, some name => (name, o.endpoints.contains name)
    | none, none => ("", false)
  let receiptMatches := if receipt.expectedExists then
    decide (o.effectReceipts.get identity = some receipt)
    else !o.effectReceipts.contains identity
  if name.isEmpty || !receiptMatches then .conflict
  else match observe receipt with
    | .exact => .consistent receipt.expectedExists
    | .absent => if owned then .conflict else .consistent false
    | .mismatch | .unknown => .conflict

end Ownership

section Load
variable {κ γ : Type} (sv : Services κ γ)

structure Config where
  uid : UInt32
  cluster : String
  node : String
  key : sv.pk.ed.VerifyingKey
  grants : Option γ
  authorizationIdentity : Option (AuthorizationServiceMode × String)
  kernel : κ

variable {sv}

def NetdServer.compose (config : Config sv) : NetdServer sv where
  uid := config.uid
  policy := .new config.cluster config.node config.key
  grants := config.grants
  owned := .empty
  authorizationIdentity := config.authorizationIdentity
  journal := false
  journalId := .zero 16
  journalGeneration := 0
  kernel := config.kernel

def NetdServer.restored (server : NetdServer sv) (newJournalId : Id) (file : Option JournalFrame) :
    NetdServer sv :=
  match file with
  | none => { server with journal := true, journalId := newJournalId, journalGeneration := 0 }
  | some frame => { server with
    journal := true
    journalId := frame.journalId
    journalGeneration := frame.generation
    owned := frame.state.owned
    policy := { server.policy with revisions := frame.state.revisionFloors } }

variable (sv)

def loadJournal (newJournalId : Id) : Program Unit (Host sv) Unit := do
  modify fun h => { h with server := h.server.restored newJournalId h.file }
  modify fun h => h.withOwned (h.owned.recovered (sv.net.observeEffect h.server.kernel))
  ensure persist ()
  let h ← get
  ensure (withVerifier true (sv.verifier.reconcileUnknown
    (h.owned.observeUnknown (sv.net.observeEffect h.server.kernel)))) ()

end Load
end Ferrocrate.Netd

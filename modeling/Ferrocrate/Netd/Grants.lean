import Ferrocrate.Lib.Loops
import Ferrocrate.Authorization.GrantEncoding
import Ferrocrate.Netd.Server

/-! The verifier of helper grants and its ledger (`grants.rs`, `grants_recovery.rs`): which grants
were consumed, what became of them, and how both are kept across restarts. -/
namespace Ferrocrate.Netd
open Lib
open Lib.Program
open Authorization
open Witness (Id Digest)

structure GrantResult where
  requestId : String
  nonce : Id
  resultIdentity : String
  outcome : String
deriving DecidableEq

inductive GrantPhase where
  | pending | consumedBeforeEffect | succeeded | failed | outcomeUnknown
deriving DecidableEq

structure GrantOperation where
  claims : GrantClaims
  phase : GrantPhase
  effectIdentity : Option String
  expectedReceipt : Option EffectReceipt

structure LedgerState where
  consumed : OrdMap String GrantOperation
  results : OrdMap String GrantResult

def LedgerState.empty : LedgerState := ⟨.empty, .empty⟩

inductive PersistOutcome where
  | stored | failed | unsynced

structure GrantLedger where
  state : LedgerState
  file : Option LedgerState
  persists : List PersistOutcome

def GrantAction.debugName : GrantAction → String
  | .networkCreate => "NetworkCreate"
  | .networkDelete => "NetworkDelete"
  | .networkAttach => "NetworkAttach"
  | .networkDetach => "NetworkDetach"
  | .networkInspect => "NetworkInspect"

def GrantAction.isCleanup : GrantAction → Bool
  | .networkDelete | .networkDetach => true
  | _ => false

namespace LedgerState

def setPhase (s : LedgerState) (nonce : String) (phase : GrantPhase) : LedgerState :=
  { s with consumed := s.consumed.modify nonce fun operation => { operation with phase := phase } }

def enter (s : LedgerState) (grant : HelperGrant) : LedgerState :=
  let operation : GrantOperation := ⟨grant.claims, .pending, none, none⟩
  { s with consumed := s.consumed.insert (hex grant.claims.nonce.val) operation }

def insertResultIfMissing (s : LedgerState) (result : GrantResult) : LedgerState :=
  if (s.results.get result.requestId).isSome then s
  else { s with results := s.results.insert result.requestId result }

def close (s : LedgerState) (nonce : String) (result : GrantResult) (phase : GrantPhase) :
    LedgerState :=
  (s.insertResultIfMissing result).setPhase nonce phase

def unknown (s : LedgerState) : List (String × GrantOperation) :=
  s.consumed.entries.filter fun entry => entry.2.phase = .outcomeUnknown

def quarantineUnknown (s : LedgerState) : LedgerState :=
  (s.unknown.filter fun entry => entry.2.effectIdentity.isNone).foldl (fun s entry =>
    let claims := entry.2.claims
    s.close entry.1 ⟨claims.requestId, claims.nonce,
      "quarantine:" ++ claims.resource.resourceUuid ++ ":" ++ GrantAction.debugName claims.action,
      "quarantined_after_unknown_effect"⟩ .failed) s

def verdict (observation : RecoveryObservation) (expectedExists : Bool) : GrantPhase × String :=
  match observation with
  | .consistent found =>
    if found = expectedExists then (.succeeded, "recovered_after_unknown_effect")
    else (.failed, "failed_after_unknown_effect")
  | .conflict => (.failed, "quarantined_after_unknown_effect")

def reconcileUnknown (s : LedgerState) (observe : EffectReceipt → RecoveryObservation) :
    LedgerState :=
  s.unknown.foldl (fun s entry =>
    match entry.2.expectedReceipt with
    | none => s
    | some receipt =>
      let (phase, outcome) := verdict (observe receipt) receipt.expectedExists
      s.close entry.1 ⟨entry.2.claims.requestId, entry.2.claims.nonce, receipt.identity, outcome⟩
        phase) s

end LedgerState

namespace GrantLedger

def persist : Program GrantError GrantLedger Unit := fun l =>
  let rest := l.persists.drop 1
  match l.persists.head?.getD .stored with
  | .stored => (.ok (), { l with file := some l.state, persists := rest })
  | .failed => (.error .io, { l with persists := rest })
  | .unsynced => (.error .io, { l with file := some l.state, persists := rest })

def update (f : LedgerState → LedgerState) : Program GrantError GrantLedger Unit :=
  modify fun l => { l with state := f l.state }

def openLedger : Program GrantError GrantLedger Unit := do
  modify fun l => { l with state := l.file.getD .empty }
  update LedgerState.quarantineUnknown
  persist

def consume (grant : HelperGrant) : Program GrantError GrantLedger Unit := do
  let nonce := hex grant.claims.nonce.val
  let l ← get
  rejectIf (l.state.consumed.contains nonce = true) .replay
  update (·.enter grant)
  persist
  update (·.setPhase nonce .consumedBeforeEffect)
  persist

def record (result : GrantResult) (phase : GrantPhase) : Program GrantError GrantLedger Unit := do
  let l ← get
  rejectIf ((l.state.consumed.get (hex result.nonce.val)).map (·.claims.requestId)
    ≠ some result.requestId) .notConsumed
  match l.state.results.get result.requestId with
  | some old => rejectIf (old ≠ result) .resultConflict
  | none =>
    update fun s => { s with results := s.results.insert result.requestId result }
    update (·.setPhase (hex result.nonce.val) phase)
    persist

def markOutcomeUnknown (nonce : Id) (effectIdentity : Option String)
    (expectedReceipt : Option EffectReceipt) : Program GrantError GrantLedger Unit := do
  let l ← get
  rejectIf (l.state.consumed.contains (hex nonce.val) = false) .notConsumed
  update fun s => { s with consumed := s.consumed.modify (hex nonce.val) fun operation =>
    { operation with
      phase := .outcomeUnknown
      effectIdentity := effectIdentity
      expectedReceipt := expectedReceipt } }
  persist

def reconcileUnknown (observe : EffectReceipt → RecoveryObservation) :
    Program GrantError GrantLedger Unit := do
  update (·.reconcileUnknown observe)
  persist

end GrantLedger

/-! The verifier in front of the ledger. -/

namespace GrantVerifier

structure Config (pk : Packages) where
  keys : OrdMap String pk.ed.VerifyingKey
  issuer : String
  bootId : String

section Verifier
variable (pk : Packages) (grantJson : HelperGrant → Option Bytes)

def maxGrantBytes : Nat := 16 * 1024

def validatesCleanup (s : LedgerState) (grant : HelperGrant) : Bool :=
  match grant.claims.originRequestId with
  | none => false
  | some origin =>
    match s.results.get origin,
        s.consumed.entries.find? (fun entry => entry.2.claims.requestId = origin) with
    | some result, some (_, source) =>
      let live := pk.sha256 (utf8 "ferrocrate.helper-live-identity.v1\x00"
        ++ utf8 result.resultIdentity)
      source.claims.bootId = grant.claims.bootId ∧ source.claims.resource = grant.claims.resource
        ∧ (source.claims.action = .networkCreate ∨ source.claims.action = .networkAttach)
        ∧ grant.claims.liveIdentityDigest = some live
    | _, _ => false

def verifySignature (config : Config pk) (grant : HelperGrant) : Except GrantError Unit :=
  match pk.base64Decode grant.signature with
  | none => .error .invalidSignature
  | some signature =>
    match config.keys.get grant.claims.keyId with
    | none => .error .wrongIssuer
    | some key =>
      if h : signature.length = 64 then
        if pk.ed.verify key grant.claims.signingBytes ⟨signature, h⟩ then .ok ()
        else .error .invalidSignature
      else .error .invalidSignature

def missesRecipes (c : GrantClaims) : Bool :=
  (c.action = .networkCreate ∨ c.action = .networkDelete)
    ∧ (c.preconditionDigest = .zero 32 ∨ c.recoveryRecipeDigest = .zero 32
      ∨ c.preconditionDigest = c.parameterDigest ∨ c.recoveryRecipeDigest = c.parameterDigest
      ∨ c.preconditionDigest = c.recoveryRecipeDigest)

def missesProvenance (c : GrantClaims) : Bool :=
  c.originRequestId.all (·.isEmpty) || c.liveIdentityDigest.all (· = .zero 32)

def verify (config : Config pk) (s : LedgerState) (grant : HelperGrant)
    (action : GrantAction) (uuid : String) (generation : UInt64) (parameters : GrantParameters)
    (wallNow monotonicNow : UInt64) : Except GrantError Unit :=
  let c := grant.claims
  match grantJson grant with
  | none => .error .encoding
  | some bytes =>
    if bytes.length > maxGrantBytes then .error .oversized
    else if c.schemaVersion ≠ 1 ∨ c.issuer ≠ config.issuer then .error .wrongIssuer
    else do
      verifySignature pk config grant
      if c.bootId ≠ config.bootId then .error .wrongBoot
      else if c.wallDeadlineSecs ≤ wallNow ∨ c.monotonicDeadlineMillis ≤ monotonicNow then
        .error .expired
      else if c.kind = .cleanup ∧ GrantAction.isCleanup action = false then
        .error .cleanupEscalation
      else if c.action ≠ action then .error .actionMismatch
      else if c.resource.resourceUuid ≠ uuid ∨ c.resource.generation ≠ generation then
        .error .resourceMismatch
      else if c.parameterDigest ≠ parameters.digest pk.sha256 then .error .parameterMismatch
      else if missesRecipes c then .error .parameterMismatch
      else if c.kind = .cleanup ∧ missesProvenance c then .error .cleanupProvenance
      else if c.kind = .cleanup ∧ validatesCleanup pk s grant = false then
        .error .cleanupProvenance
      else .ok ()

def verifyAndConsume (config : Config pk) (grant : HelperGrant) (action : GrantAction)
    (uuid : String) (generation : UInt64) (parameters : GrantParameters)
    (wallNow monotonicNow : UInt64) : Program GrantError GrantLedger ConsumedGrant := do
  let l ← get
  ofExcept id (verify pk grantJson config l.state grant action uuid generation parameters wallNow
    monotonicNow)
  GrantLedger.consume grant
  return ⟨grant.claims.requestId, grant.claims.nonce⟩

end Verifier

def recordResult (consumed : ConsumedGrant) (identity outcome : String) :
    Program GrantError GrantLedger Unit :=
  GrantLedger.record ⟨consumed.requestId, consumed.nonce, identity, outcome⟩ .succeeded

def recordFailure (consumed : ConsumedGrant) (identity outcome : String) :
    Program GrantError GrantLedger Unit :=
  GrantLedger.record ⟨consumed.requestId, consumed.nonce, identity, outcome⟩ .failed

def armEffect (consumed : ConsumedGrant) : Program GrantError GrantLedger Unit :=
  GrantLedger.markOutcomeUnknown consumed.nonce none none

def armEffectTarget (consumed : ConsumedGrant) (receipt : EffectReceipt) :
    Program GrantError GrantLedger Unit :=
  GrantLedger.markOutcomeUnknown consumed.nonce (some receipt.identity) (some receipt)

end GrantVerifier
end Ferrocrate.Netd

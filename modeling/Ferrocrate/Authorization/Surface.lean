import Ferrocrate.Authorization.Delegation
import Ferrocrate.Lib.Framing

/-! Permits of the non-container surface (`authorization/surface.rs`): what an executor checks
before it uses one, and the outcome record that uses it up. -/
namespace Ferrocrate.Authorization
open Lib Lib.Program
open Witness

inductive ResourceKind where
  | container | image | volume | network | device | policy | administrative | rootlessMapping
deriving DecidableEq

def ResourceKind.debug : ResourceKind → String
  | .container => "Container"
  | .image => "Image"
  | .volume => "Volume"
  | .network => "Network"
  | .device => "Device"
  | .policy => "Policy"
  | .administrative => "Administrative"
  | .rootlessMapping => "RootlessMapping"

def hexDigits (bs : Bytes) : List Char :=
  bs.flatMap fun b => [(b.toNat / 16).digitChar, (b.toNat % 16).digitChar]

def uuid (digest : Digest) : String :=
  let value := hexDigits (digest.val.take 16)
  let part (start stop : Nat) := String.ofList ((value.take stop).drop start)
  part 0 8 ++ "-" ++ part 8 12 ++ "-" ++ part 12 16 ++ "-" ++ part 16 20 ++ "-" ++ part 20 32

def stableResourceId (sha256 : Hasher) (kind : ResourceKind) (canonicalName : String) :
    String :=
  uuid (sha256 (utf8 "ferrocrate/surface-resource/v1" ++ utf8 kind.debug ++ utf8 canonicalName))

structure CanonicalRequest where
  action : Action
  kind : ResourceKind
  resourceId : String
  resourceGeneration : UInt64
  imageDigest : Option String
  operationPlanDigest : Option Digest

inductive SurfacePermitDurability where
  | disabled
  | required (intent : DurableIntent)

structure SurfacePermit where
  proof : CanonicalRequest
  durability : SurfacePermitDurability
  operation : OperationId
  decisionId : Option Id
  template : WitnessRecord

inductive SurfaceExecutionError where
  | actionMismatch | resourceMismatch | generationMismatch
deriving DecidableEq

inductive SurfaceAuthorizationError where
  | journal (error : JournalError)
deriving DecidableEq

inductive AuthorizationCause where
  | execution (error : SurfaceExecutionError)
  | surface (error : SurfaceAuthorizationError)
  | text (message : String)
deriving DecidableEq

section Permits
variable (sha256 : Hasher)

def validateExecution (permit : SurfacePermit) (action : Action) (kind : ResourceKind)
    (canonicalName : String) (generation : UInt64) : Except SurfaceExecutionError Unit :=
  if permit.proof.action ≠ action then .error .actionMismatch
  else if permit.proof.kind ≠ kind
      ∨ permit.proof.resourceId ≠ stableResourceId sha256 kind canonicalName then
    .error .resourceMismatch
  else if permit.proof.resourceGeneration ≠ generation then .error .generationMismatch
  else .ok ()

theorem validateExecution_ok_iff (permit : SurfacePermit) (action : Action) (kind : ResourceKind)
    (canonicalName : String) (generation : UInt64) :
    validateExecution sha256 permit action kind canonicalName generation = .ok () ↔
      permit.proof.action = action ∧ permit.proof.kind = kind ∧
      permit.proof.resourceId = stableResourceId sha256 kind canonicalName ∧
      permit.proof.resourceGeneration = generation := by
  simp only [validateExecution, Except.ite_error_eq_ok, not_not, not_or, ne_eq, and_true,
    and_assoc]

def saltedEvent (eventId : Id) (salt : UInt8) : Id :=
  ⟨eventId.val.modifyHead (· ^^^ salt), by rw [List.length_modifyHead, eventId.length_eq]⟩

def atStage (template : WitnessRecord) (stage : WitnessStage) (salt : UInt8) : WitnessRecord :=
  { template with
    stage := stage
    eventId := saltedEvent template.eventId salt }

def SurfacePermit.outcomeRecord (permit : SurfacePermit) (outcome : WitnessOutcome) :
    WitnessRecord :=
  let record := atStage permit.template .outcome 4
  { record with
    decisionId := permit.decisionId
    outcome := outcome
    resultDigest := some (sha256 [outcome.code])
    reason := if outcome = .failed ∨ outcome = .outcomeUnknown then some .executionFailed
      else record.reason }

def completePermit (permit : SurfacePermit) (outcome : WitnessOutcome) :
    Program SurfaceAuthorizationError WitnessJournal Unit := fun j =>
  match permit.durability with
  | .disabled => (.ok (), j)
  | .required intent =>
    match Journal.complete sha256 intent (permit.outcomeRecord sha256 outcome) j with
    | (.ok (), j) => (.ok (), j)
    | (.error e, j) => (.error (.journal e), j)

end Permits

end Ferrocrate.Authorization

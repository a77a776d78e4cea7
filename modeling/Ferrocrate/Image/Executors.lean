import Ferrocrate.Authorization.Closing
import Ferrocrate.Image.Reference
import Ferrocrate.Image.Store

/-! The authorised operations of the image store: which checks they make, in which order they
take the lock, and when they finish their permits. -/
namespace Ferrocrate.Image
open Lib
open Authorization
open Witness

abbrev ImageWorld := PermitWorld ImageStoreError Tables

inductive Moment where
  | read
  | put (record : ImageRecord)
  | remove (reference digest : String)
  | deleteDigest (plan : ImageDeletePlan)
  | prune (selected : List ImageRecord)
  | finish (permit : SurfacePermit) (outcome : WitnessOutcome)

instance : FinishLabel Moment where
  finish?
    | .finish permit outcome => some (permit, outcome)
    | _ => none

abbrev ImageTask (α : Type) := Task ImageStoreError ImageWorld Moment α

def read {α : Type} (f : Tables → Except ImageStoreError α) : ImageTask α :=
  Task.atomically .read (PermitWorld.locked fun t => (f t).map fun a => (a, t))

def putReference (record : ImageRecord) : ImageTask Unit :=
  Task.atomically (.put record) (PermitWorld.locked fun t => .ok ((), t.put record))

def removeReferenceIfDigest (reference digest : String) : ImageTask Bool :=
  Task.atomically (.remove reference digest)
    (PermitWorld.locked fun t => .ok (t.removeReferenceIfDigest reference digest))

section Authorized
variable (sha256 : Hasher)

def finishAs (permit : SurfacePermit) (outcome : WitnessOutcome) : ImageTask Unit :=
  Task.atomically (.finish permit outcome)
    (PermitWorld.finished sha256 (fun e => .authorization (.surface e)) permit outcome)

def finish (permit : SurfacePermit) (succeeded : Bool) : ImageTask Unit :=
  finishAs sha256 permit (if succeeded then .succeeded else .failed)

def executionCheck (permit : SurfacePermit) (action : Action) (reference : String) :
    Except ImageStoreError Unit :=
  (validateExecution sha256 permit action .image reference 1).mapError
    fun e => .authorization (.execution e)

def checkImageDelete (message reference digest : String) (permit : SurfacePermit) :
    Except ImageStoreError Unit := do
  executionCheck sha256 permit .imageDelete reference
  if permit.proof.imageDigest ≠ some digest then
    throw (.authorization (.text message))

structure ImageReferenceWritePlan where
  canonicalReference : String
  digest : String
  manifestMediaType : String
  manifestJson : String
  planDigest : Digest

def ImageReferenceWritePlan.record (plan : ImageReferenceWritePlan) (now : UInt64) : ImageRecord :=
  ⟨plan.canonicalReference, plan.digest, plan.manifestMediaType, plan.manifestJson, now⟩

def putReferenceAuthorized (plan : ImageReferenceWritePlan) (now : UInt64)
    (permit : SurfacePermit) : ImageTask Unit := do
  Task.ofExcept (executionCheck sha256 permit .imageReferenceWrite plan.canonicalReference)
  if permit.proof.operationPlanDigest ≠ some plan.planDigest then
    finish sha256 permit false
    throw (.authorization (.text "reference write plan does not match proof"))
  match ← Task.attempt (putReference (plan.record now)) with
  | .ok () => finish sha256 permit true
  | .error e =>
    finishAs sha256 permit .outcomeUnknown
    throw e

def removeReferenceAuthorized (reference digest : String) (permit : SurfacePermit) :
    ImageTask Bool := do
  Task.ofExcept (checkImageDelete sha256 "image digest does not match executor" reference digest
    permit)
  match ← Task.attempt (removeReferenceIfDigest reference digest) with
  | .ok removed =>
    finish sha256 permit true
    return removed
  | .error e =>
    finish sha256 permit false
    throw e

def finishImageDeletePermits (permits : List SurfacePermit) (succeeded : Bool) :
    ImageTask Unit := do
  let results ← permits.mapM fun permit => Task.attempt (finish sha256 permit succeeded)
  let firstError := results.findSome? fun
    | .error e => some e
    | .ok () => none
  match firstError with
  | some e => throw e
  | none => pure ()

def executeDigestDeleteAuthorized (plan : ImageDeletePlan) (permits : List SurfacePermit) :
    ImageTask Bool := do
  if plan.references = [] then
    finishImageDeletePermits sha256 permits false
    throw (.deleteNotFound plan.digest)
  if plan.references.length ≠ permits.length then
    finishImageDeletePermits sha256 permits false
    throw (.authorization (.text
      "image delete authorization set does not match planned inventory"))
  let validation := (plan.references.zip permits).forM fun (reference, permit) =>
    checkImageDelete sha256 "image delete digest does not match executor" reference plan.digest permit
  match validation with
  | .error e =>
    finishImageDeletePermits sha256 permits false
    throw e
  | .ok () =>
    match ← Task.attempt (Task.atomically (.deleteDigest plan)
      (PermitWorld.locked fun t => t.deleteDigest plan)) with
    | .ok removed =>
      finishImageDeletePermits sha256 permits true
      return removed
    | .error e =>
      finishImageDeletePermits sha256 permits false
      throw e

def selectPrune (records : List ImageRecord) (permits : List SurfacePermit)
    (selectedReferences : List String) : Except ImageStoreError (List ImageRecord) :=
  if selectedReferences.length ≠ permits.length then
    .error (.authorization (.text
      "image prune authorization set does not match selected inventory"))
  else (selectedReferences.zip permits).mapM fun (reference, permit) =>
    match records.find? fun record => record.reference = reference with
    | none => .error (.authorization (.text "image prune selection changed during authorization"))
    | some record => do
      checkImageDelete sha256 "image prune digest does not match executor" record.reference
        record.digest permit
      return record

def pruneReferencesAuthorized (permits : List SurfacePermit) (selectedReferences : List String) :
    ImageTask Nat := do
  let records ← read fun t => .ok t.listReferences
  let selected ← Task.ofExcept (selectPrune sha256 records permits selectedReferences)
  if selected = [] then
    return 0
  match ← Task.attempt (Task.atomically (.prune selected)
      (PermitWorld.locked fun t => .ok (t.prune (selected.map (·.reference))))) with
  | .ok removed =>
    permits.forM fun permit => finish sha256 permit true
    return removed
  | .error e =>
    permits.forM fun permit => finishAs sha256 permit .outcomeUnknown
    throw e

structure ImageTagPlan where
  sourceReference : String
  targetReference : String
  sourceDigest : String
  manifestDigest : Digest
  planDigest : Digest

def ImageTagPlan.generation (_ : ImageTagPlan) : UInt64 := 1

inductive ImageTaggingError where
  | invalidReference (error : RegistryError)
  | store (error : ImageStoreError)
  | sourceNotFound (reference : String)
  | authorization (cause : AuthorizationCause)
deriving DecidableEq

def ImageTagPlan.record (plan : ImageTagPlan) (source : ImageRecord) (now : UInt64) : ImageRecord :=
  ⟨plan.targetReference, source.digest, source.manifestMediaType, source.manifestJson, now⟩

def finishTagAs (permit : SurfacePermit) (outcome : WitnessOutcome) :
    Task ImageTaggingError ImageWorld Moment Unit :=
  Task.atomically (.finish permit outcome)
    (PermitWorld.finished sha256 (fun e => .authorization (.surface e)) permit outcome)

def executeImageTagAuthorized (plan : ImageTagPlan) (now : UInt64) (permit : SurfacePermit) :
    Task ImageTaggingError ImageWorld Moment Unit := do
  Task.ofExcept ((validateExecution sha256 permit .imageTag .image plan.targetReference
    plan.generation).mapError fun e => .authorization (.execution e))
  if permit.proof.operationPlanDigest ≠ some plan.planDigest then
    finishTagAs sha256 permit .failed
    throw (.authorization (.text "image tag plan does not match proof"))
  match ← Task.attempt (read fun t => .ok (t.resolveReference plan.sourceReference)) with
  | .error e =>
    finishTagAs sha256 permit .failed
    throw (.store e)
  | .ok none =>
    finishTagAs sha256 permit .failed
    throw (.sourceNotFound plan.sourceReference)
  | .ok (some source) =>
    if source.digest ≠ plan.sourceDigest
        ∨ sha256 (utf8 source.manifestJson) ≠ plan.manifestDigest then
      finishTagAs sha256 permit .failed
      throw (.authorization (.text "image tag source changed after authorization"))
    match ← Task.attempt (putReference (plan.record source now)) with
    | .ok () => finishTagAs sha256 permit .succeeded
    | .error e =>
      finishTagAs sha256 permit .outcomeUnknown
      throw (.store e)

end Authorized
end Ferrocrate.Image

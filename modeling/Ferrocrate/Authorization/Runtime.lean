import Ferrocrate.Authorization.Admission
import Ferrocrate.Authorization.Gate

/-! The mediation of container mutations (`authorization/runtime.rs`) with a single-use emergency
authority (`authorization/emergency.rs`). -/
namespace Ferrocrate.Authorization.Gate
open Lib Lib.Program
open Witness

structure ContainerRecord where
  id : String
  name : Option String
  image : String
  status : String
  pid : UInt32
  mutationGeneration : UInt64
  imageDigest : Option String

structure RunMountFact where
  mountClass : MountClass
  mountId : UInt64
  deviceId : UInt64
  inode : UInt64
  openFlags : UInt64
  targetDigest : Digest

structure RunSecurityFacts where
  capabilities : List String
  mounts : List RunMountFact
  networkIds : List String
  privileged : Bool
  readonlyRootfs : Bool
  noNewPrivileges : Bool
  mountSourcesApproved : Option Bool
  executionDigest : Option String
  parentResourceId : Option String

def RunSecurityFacts.none : RunSecurityFacts :=
  ⟨[], [], [], false, false, false, .none, .none, .none⟩

structure RequestOrigin where
  principal : ResolvedPrincipal
  invocation : Invocation
  requestId : Option Id
  parentRequestId : Option Id
  attempt : Nat
  fanout : Option FanoutContext
  transport : Bool

structure EmergencyAuthority where
  action : Action
  resource : String
  resourceGeneration : UInt64
  bootId : String
  deadlineUptimeNs : UInt64
  principal : String
  policyDigest : Digest
  operationId : Id

/-- What a call reads besides its arguments: the evidence files, the pinned policy, its random
numbers, the host's view of the transport, the clocks and the boot. -/
structure Moment where
  files : EvidenceFiles
  pin : PolicySnapshot
  operationId : Id
  eventId : Id
  decisionId : Id
  transportValid : Bool
  nowMs : UInt64
  nowNs : Nat
  bootId : Option String
  uptimeNs : Option UInt64

structure World where
  journal : Option WitnessJournal
  consumed : Bool
  admitted : List Action

inductive MediationError where
  | denied (text : String)
  | journal (error : JournalError)
  | stale | identity | checkpointStale
  /-- The panic on an action that is not of a container's lifecycle. -/
  | unreachable

structure MutationPermit where
  proof : AuthorizedRequest
  intent : Option DurableIntent
  operation : OperationId
  decisionId : Option Id
  journalId : Option Id
  template : WitnessRecord

/-! Names and digests. -/

def uuidFromRaw (bytes : Bytes) : String :=
  let hex := hexDigits bytes
  let part (start stop : Nat) := String.ofList ((hex.take stop).drop start)
  part 0 8 ++ "-" ++ part 8 12 ++ "-" ++ part 12 16 ++ "-" ++ part 16 20 ++ "-" ++ part 20 32

def lifecycleState : String → Option ResourceState
  | "created" => some .created
  | "running" => some .running
  | "paused" => some .paused
  | "stopped" | "killed" | "exited" => some .stopped
  | _ => none

def pinnedImage (image : String) : Option (String × String) :=
  (rsplitOnce '@' image.toList).map fun (_, digest) => (image, String.ofList digest)

def imageOf (record : ContainerRecord) : Option (String × String) :=
  (pinnedImage record.image).or (record.imageDigest.map fun digest =>
    (String.ofList (record.image.toList.takeWhile (· ≠ '@')) ++ "@" ++ digest, digest))

def witnessAction : Action → Option WitnessAction
  | .containerCreate => some .containerCreate
  | .containerRun => some .containerRun
  | .containerExec => some .containerExec
  | .containerPause => some .containerPause
  | .containerResume => some .containerResume
  | .containerStop => some .containerStop
  | .containerKill => some .containerKill
  | .containerRestart => some .containerRestart
  | .containerStart => some .containerStart
  | .containerDelete => some .containerDelete
  | .containerRename => some .containerRename
  | .containerArchiveWrite => some .containerArchiveWrite
  | .containerUpdate => some .containerUpdate
  | .networkAttach => some .networkAttach
  | .networkDetach => some .networkDetach
  | _ => none

def isNetworkEndpoint (action : Action) : Bool :=
  action = .networkAttach ∨ action = .networkDetach

def isEmergencyAction (action : Action) : Bool :=
  action = .containerStop ∨ action = .containerKill ∨ action = .containerDelete

def fanoutActionCode : Action → UInt8
  | .containerRun => 1
  | .containerStop => 2
  | .containerDelete => 3
  | .imagePull => 4
  | .volumeCreate => 5
  | .imageBuild => 6
  | .imageTag => 7
  | .imageReferenceWrite => 8
  | _ => 0

def pseudonymDomain : Bytes := utf8 "FERROCRATE-PSEUDONYM-V1"

def ContainerRecord.generation (record : ContainerRecord) : UInt64 :=
  if record.mutationGeneration = 0 then 1 else record.mutationGeneration

section Digests
variable (sha256 : Hasher)

def canonicalUuid (id : String) : String :=
  let compact := id.toList.filter (· ≠ '-')
  let bytes := utf8 (String.ofList compact)
  if bytes.length ≠ 32 ∨ ¬bytes.all isAsciiHexdigit then
    uuidFromRaw ((sha256 (utf8 id)).val.take 16)
  else
    let part (start stop : Nat) := String.ofList ((compact.take stop).drop start)
    part 0 8 ++ "-" ++ part 8 12 ++ "-" ++ part 12 16 ++ "-" ++ part 16 20 ++ "-" ++ part 20 32

def ruleSummary (value : Bytes) : Id := (sha256 value).first 16 FixedBytes.sixteen_le

def pseudonymize (purpose key value : Bytes) : Except WitnessError Digest :=
  if purpose = [] ∨ purpose.length > 128 ∨ key.length < 32 then .error .invalidPurpose
  else
    let block := (if key.length > 64 then (sha256 key).val else key).rightpad 64 0
    let inner := sha256 (block.map (· ^^^ 0x36) ++ pseudonymDomain ++ toBe 2 purpose.length
      ++ purpose ++ value)
    .ok (sha256 (block.map (· ^^^ 0x5c) ++ inner.val))

def FanoutContext.integrityValid (fanout : FanoutContext) : Bool :=
  let expected := sha256 (utf8 "ferrocrate/compose-idempotency/v1" ++ fanout.parentRequestId.val
    ++ fanout.planDigest.val ++ u32Be fanout.ordinal ++ [fanoutActionCode fanout.expectedAction]
    ++ toBe 8 (utf8 fanout.expectedResource).length ++ utf8 fanout.expectedResource
    ++ fanout.requestDigest.val)
  let hash := sha256 (utf8 "ferrocrate/compose-child/v1" ++ expected.val ++ u32Be fanout.attempt)
  expected = fanout.idempotencyKey ∧ hash.val.take 16 = fanout.childId.val

def RequestOrigin.fanoutIntegrityValid (origin : RequestOrigin) : Bool :=
  origin.fanout.all fun fanout => fanout.integrityValid sha256 ∧
    origin.requestId = some fanout.childId ∧
    origin.parentRequestId = some fanout.parentRequestId ∧ origin.attempt = fanout.attempt

def composeDownExecutorDigest (record : ContainerRecord) (action : Action) : Digest :=
  let code : UInt8 := if action = .containerStop then 1 else if action = .containerDelete then 2
    else 0
  sha256 (utf8 "ferrocrate/compose-down-executor/v1" ++ [code]
    ++ [record.id, record.status].flatMap (fun value => toBe 8 (utf8 value).length ++ utf8 value)
    ++ u64Be record.generation)

end Digests

/-! The emergency authority. -/

structure EmergencyAuthority.Covers (authority : EmergencyAuthority) (action : Action)
    (resource : String) (generation : UInt64) (principal : ResolvedPrincipal)
    (policyDigest : Digest) (operationId : Id) : Prop where
  action : authority.action = action
  resource : authority.resource = resource
  generation : authority.resourceGeneration = generation
  principal : authority.principal = principal.id
  policyDigest : authority.policyDigest = policyDigest
  operationId : authority.operationId = operationId

def EmergencyAuthority.consume (authority : EmergencyAuthority) (m : Moment) (action : Action)
    (resource : String) (generation : UInt64) (principal : ResolvedPrincipal)
    (policyDigest : Digest) (operationId : Id) (w : World) : Bool × World :=
  if authority.action ≠ action ∨ authority.resource ≠ resource
      ∨ authority.resourceGeneration ≠ generation ∨ authority.principal ≠ principal.id
      ∨ authority.policyDigest ≠ policyDigest ∨ authority.operationId ≠ operationId
      ∨ m.bootId ≠ some authority.bootId
      ∨ m.uptimeNs.all (fun now => authority.deadlineUptimeNs ≤ now) then (false, w)
  else (!w.consumed, { w with consumed := true })

/-! One call. -/

structure RuntimeAuthorization (ed : Ed25519) where
  admission : Option (MutationAdmission ed)
  runtimeId : Id
  bootId : Id
  pseudonymKey : Digest
  origin : Option RequestOrigin
  emergency : Option EmergencyAuthority

def RuntimeAuthorization.withOrigin {ed : Ed25519} (auth : RuntimeAuthorization ed)
    (origin : RequestOrigin) : RuntimeAuthorization ed :=
  { auth with origin := some origin }

def journaled {α : Type} (operation : Journaled α) :
    Program MediationError World (Option (α × Id)) := fun w =>
  match w.journal with
  | none => (.ok none, w)
  | some j =>
    match operation j with
    | (.ok a, j') => (.ok (some (a, j.config.journalId)), { w with journal := some j' })
    | (.error e, j') => (.error (.journal e), { w with journal := some j' })

namespace RuntimeAuthorization
variable (sha256 : Hasher) (serialise : RequestContext → Option Bytes) {ed : Ed25519}
variable (auth : RuntimeAuthorization ed) (m : Moment) (action : Action) (record : ContainerRecord)

def askGate : Program MediationError World Unit := fun w =>
  if auth.emergency.isSome ∧ isEmergencyAction action then (.ok (), w)
  else if admits sha256 auth.admission m.files action then
    (.ok (), { w with admitted := w.admitted ++ [action] })
  else (.error .checkpointStale, w)

def operation : OperationId :=
  (auth.origin.bind (·.requestId)).getD m.operationId

def checkFanout : Except MediationError Unit :=
  match auth.origin.bind (·.fanout) with
  | none => .ok ()
  | some fanout =>
    if fanout.expectedAction ≠ action ∨ record.name ≠ some fanout.expectedResource
        ∨ fanout.deadlineUnixMs < m.nowMs ∨ fanout.policyGeneration ≠ m.pin.generation
        ∨ fanout.policyDigest ≠ m.pin.digest then .error .stale
    else if (action = .containerStop ∨ action = .containerDelete)
        ∧ fanout.requestDigest ≠ composeDownExecutorDigest sha256 record action then .error .stale
    else .ok ()

def requestContext (run : RunSecurityFacts) (state : Option ResourceState) : RequestContext where
  requestId := uuidFromRaw (auth.operation m).val
  principal := auth.origin.map (·.principal)
  action := action
  resource :=
    ⟨if isNetworkEndpoint action then .network else .container, canonicalUuid sha256 record.id,
      none, record.generation⟩
  facts := {
    imageDigest := (imageOf record).map (·.2)
    mounts := run.mounts.map (·.mountClass)
    networkIds := run.networkIds
    requestedCapabilities := run.capabilities
    privileged := run.privileged
    deviceClasses := []
    lifecycleState := state
    readonlyRootfs := run.readonlyRootfs
    noNewPrivileges := run.noNewPrivileges
    mountSourcesApproved := run.mountSourcesApproved
    executionDigest := run.executionDigest
    parentResourceId := run.parentResourceId }
  fanout := auth.origin.bind (·.fanout)

def canonicalRequest (run : RunSecurityFacts) (state : Option ResourceState) : CanonicalRequest :=
  let bindings : ExecutionBindings :=
    { image := (imageOf record).map fun (reference, digest) => ⟨reference, digest, none⟩
      resourceGeneration := record.generation
      statePrecondition := state
      deviceIdentity := none
      mountHandles := run.mounts.map fun mount => ⟨mount.mountClass, mount.mountId, mount.deviceId,
        mount.inode, mount.openFlags, mount.targetDigest⟩
      operationPlanDigest := none }
  .new (auth.requestContext sha256 m action record run state) m.pin bindings bindings

def recordTemplate (request : CanonicalRequest) : Except MediationError WitnessRecord :=
  match serialise request.context,
    pseudonymize sha256 (utf8 "witness/resource") auth.pseudonymKey.val
      (utf8 request.context.resource.id),
    pseudonymize sha256 (utf8 "witness/principal") auth.pseudonymKey.val
      (utf8 ((auth.origin.map (·.principal.id)).getD "local-unresolved")) with
  | some requestBytes, .ok resource, .ok principal =>
    match witnessAction action with
    | none => .error .unreachable
    | some witness => .ok {
        epoch := 1
        sequence := 0
        previousHash := .zero 32
        eventId := m.eventId
        requestId := auth.operation m
        runtimeInstanceId := auth.runtimeId
        bootId := auth.bootId
        principal := principal
        invocation := (auth.origin.map (·.invocation)).getD .cli
        action := witness
        resourceKind := if isNetworkEndpoint action then .network else .container
        resource := resource
        resourceGeneration := request.expected.resourceGeneration
        policyVersion := UInt64.ofNat request.policyGeneration
        policyDigest := request.policyDigest
        decisionId := none
        rule := none
        decision := none
        reason := none
        requestDigest := sha256 requestBytes
        resultDigest := none
        wallTimeNs := Int64.ofNat (min m.nowNs (2 ^ 63 - 1))
        monotonicNs := UInt64.ofNat (min m.nowNs (2 ^ 64 - 1))
        stage := .requestReceived
        outcome := .none
        recoveryLink := none
        pathClass := none
        deviceClass := none
        correlationDigest := none }
  | _, _, _ => .error .identity

def recoveryRecipe (template : WitnessRecord) : Except MediationError RecoveryRecipe :=
  let observation := sha256 (utf8 "ferrocrate/recovery-observation/v1" ++ [template.action.code]
    ++ utf8 record.id ++ utf8 record.status ++ toBe 4 record.pid.toNat ++ u64Be record.generation)
  let strategy := if isNetworkEndpoint action then some .inversePrecondition
    else RecoveryTruthStrategy.forContainerAction template.action
  match strategy with
  | none => .error .identity
  | some strategy =>
    (RecoveryRecipe.forOriginalWithObservation template.action
      (if isNetworkEndpoint action then .network else .container)
      (if isNetworkEndpoint action then .networkDetach else .containerDelete)
      template.requestDigest record.generation strategy observation (auth.operation m)).mapError
      fun _ => .identity

def receive (template : WitnessRecord) : Program MediationError World Unit := do
  if (← get).journal.isSome then
    let recipe ← ofExcept id (auth.recoveryRecipe sha256 m action record template)
    let _ ← journaled (Journal.appendReceived sha256 (auth.operation m) record.generation recipe
      (atStage template .requestReceived 1))

def emergencyOverride (request : CanonicalRequest) (w : World) : Bool × World :=
  if policyWouldDeny request = .ok true then
    match auth.emergency, auth.origin with
    | some authority, some origin =>
      authority.consume m action record.id record.generation origin.principal m.pin.digest
        (auth.operation m) w
    | _, _ => (false, w)
  else (false, w)

def issue (template : WitnessRecord) (proof : AuthorizedRequest) :
    Program MediationError World MutationPermit := do
  let decision := { atStage template .decision 2 with
    decision := some true
    decisionId := some m.decisionId
    rule := some (ruleSummary sha256 (utf8 proof.decision.matchedRule))
    reason := if proof.decision.reason = .emergencyOverride then some .emergencyOverride
      else template.reason }
  let intent ← journaled (Journal.appendDecision sha256 (auth.operation m) decision)
  pure ⟨proof, intent.map (·.1), auth.operation m, intent.map fun _ => m.decisionId,
    intent.map (·.2), template⟩

def refuse (template : WitnessRecord) (denial : Denial) :
    Program MediationError World MutationPermit := do
  let decision := { atStage template .decision 2 with
    decision := some false
    decisionId := some m.decisionId
    rule := some (ruleSummary sha256 (utf8 "policy.denied"))
    reason := some .policyDenied }
  let denied := { atStage template .denied 3 with
    decisionId := some m.decisionId
    reason := some .policyDenied
    outcome := .denied }
  let _ ← journaled (Journal.deny sha256 (auth.operation m) decision denied)
  throw (.denied denial.code.debug)

def authorizeWithFacts (run : Option RunSecurityFacts) :
    Program MediationError World MutationPermit := do
  auth.askGate sha256 m action
  let state ← okOr (lifecycleState record.status) .stale
  rejectIf (auth.origin.any (fun origin => origin.transport ∧ ¬m.transportValid)) .identity
  rejectIf (auth.origin.any (fun origin => ¬origin.fanoutIntegrityValid sha256)) .identity
  ofExcept id (auth.checkFanout sha256 m action record)
  let request := auth.canonicalRequest sha256 m action record (run.getD .none) (some state)
  let template ← ofExcept id (auth.recordTemplate sha256 serialise m action request)
  auth.receive sha256 m action record template
  let overridden ← (fun w => (.ok (auth.emergencyOverride m action record request w).1,
    (auth.emergencyOverride m action record request w).2) : Program MediationError World Bool)
  match if overridden then Gate.authorizeEmergency request else Gate.authorize request with
  | .ok proof => auth.issue sha256 m template proof
  | .error denial => auth.refuse sha256 m template denial

end RuntimeAuthorization
end Ferrocrate.Authorization.Gate

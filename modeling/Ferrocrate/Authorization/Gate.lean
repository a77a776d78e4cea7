import Ferrocrate.Authorization.Policy
import Ferrocrate.Authorization.Surface

/-! The authorization gate (`authorization/gate.rs`): canonical requests, the evaluation of a
policy on one (`authorization.rs`), and the proofs the gate mints. -/
namespace Ferrocrate.Authorization.Gate
open Lib
open Witness (Digest Id Invocation)

structure Resource where
  kind : ResourceKind
  id : String
  owner : Option String
  generation : UInt64

inductive MountClass where
  | readOnly | workspace | persistentVolume | hostPath | tmpfs
deriving DecidableEq

inductive ResourceState where
  | absent | created | running | paused | stopped
deriving DecidableEq

structure RequestFacts where
  imageDigest : Option String
  mounts : List MountClass
  networkIds : List String
  requestedCapabilities : List String
  privileged : Bool
  deviceClasses : List String
  lifecycleState : Option ResourceState
  readonlyRootfs : Bool
  noNewPrivileges : Bool
  mountSourcesApproved : Option Bool
  executionDigest : Option String
  parentResourceId : Option String

structure FanoutContext where
  parentRequestId : Id
  childId : Id
  idempotencyKey : Digest
  expectedAction : Action
  expectedResource : String
  requestDigest : Digest
  deadlineUnixMs : UInt64
  policyGeneration : Nat
  policyDigest : Digest
  attempt : Nat
  ordinal : Nat
  planDigest : Digest

structure RequestContext where
  requestId : String
  principal : Option ResolvedPrincipal
  action : Action
  resource : Resource
  facts : RequestFacts
  fanout : Option FanoutContext

/-! What a policy says about a request. -/

inductive ReasonCode where
  | authorizationDisabled | shadowAllowed | roleAllowed | unknownPrincipal | resourceOwnerMismatch
  | privilegedContainerDenied | roleNotAuthorized | policyAdministrationDenied
  | cleanupActionDenied | mountSourceDenied | emergencyOverride
deriving DecidableEq

structure Decision where
  allowed : Bool
  reason : ReasonCode
  matchedRule : String
  policyGeneration : Nat
  hypotheticalDenial : Option ReasonCode

def isPolicyAdministration (action : Action) : Bool :=
  action = .policyReload ∨ action = .policyRollback

def isCleanupAction : Action → Bool
  | .containerDelete | .volumeDelete | .volumeUnmount | .networkDelete | .networkDetach => true
  | _ => false

section Evaluation
variable (document : PolicyDocument) (request : RequestContext)

def decision (allowed : Bool) (reason : ReasonCode) (matchedRule : String)
    (hypotheticalDenial : Option ReasonCode) : Decision :=
  ⟨allowed, reason, matchedRule, document.generation, hypotheticalDenial⟩

def enforcedDecision : Decision :=
  if request.facts.mountSourcesApproved = some false then
    decision document false .mountSourceDenied "container.mount-source.approved-root" none
  else match request.principal with
  | none => decision document false .unknownPrincipal "principal.unknown" none
  | some principal =>
    match principal.role with
    | .administrator => decision document true .roleAllowed "role.administrator" none
    | .operator =>
      if isPolicyAdministration request.action then
        decision document false .policyAdministrationDenied "role.operator.no-policy-admin" none
      else decision document true .roleAllowed "role.operator" none
    | .developer =>
      if request.facts.privileged ∧
          (request.action = .containerCreate ∨ request.action = .containerRun) then
        decision document false .privilegedContainerDenied
          "role.developer.no-privileged-container" none
      else if request.resource.owner ≠ some principal.id then
        decision document false .resourceOwnerMismatch "role.developer.owner" none
      else if isPolicyAdministration request.action then
        decision document false .policyAdministrationDenied "role.developer.no-policy-admin" none
      else decision document true .roleAllowed "role.developer.owner" none
    | .auditor => decision document false .roleNotAuthorized "role.auditor.read-only" none
    | .runtimeCleanup =>
      if isCleanupAction request.action then
        decision document true .roleAllowed "role.runtime-cleanup" none
      else decision document false .cleanupActionDenied "role.runtime-cleanup.deletion-only" none

def evaluate : Decision :=
  match document.mode with
  | .disabled => decision document true .authorizationDisabled "compatibility.disabled" none
  | .shadow =>
    let hypothetical := enforcedDecision document request
    if hypothetical.allowed then hypothetical
    else decision document true .shadowAllowed "compatibility.shadow" (some hypothetical.reason)
  | .enforce => enforcedDecision document request

end Evaluation

/-! What a request is bound to. -/

structure ImageBinding where
  reference : String
  digest : String
  planDigest : Option Digest
deriving DecidableEq

structure DeviceIdentity where
  deviceClass : String
  major : UInt32
  minor : UInt32
  inode : UInt64
deriving DecidableEq

structure MountHandleDescriptor where
  mountClass : MountClass
  mountId : UInt64
  deviceId : UInt64
  inode : UInt64
  openFlags : UInt64
  targetDigest : Digest
deriving DecidableEq

structure ExecutionBindings where
  image : Option ImageBinding
  resourceGeneration : UInt64
  statePrecondition : Option ResourceState
  deviceIdentity : Option DeviceIdentity
  mountHandles : List MountHandleDescriptor
  operationPlanDigest : Option Digest

structure CanonicalRequest where
  context : RequestContext
  policy : PolicySnapshot
  policyGeneration : Nat
  policyDigest : Digest
  expected : ExecutionBindings
  observed : ExecutionBindings

def CanonicalRequest.new (context : RequestContext) (policy : PolicySnapshot)
    (expected observed : ExecutionBindings) : CanonicalRequest :=
  ⟨context, policy, policy.generation, policy.digest, expected, observed⟩

inductive DenialCode where
  | policyDenied | policyGenerationMismatch | policyDigestMismatch | mutableImageReference
  | imageDigestMismatch | nonCanonicalResource | resourceGenerationMismatch
  | statePreconditionMismatch | deviceIdentityMismatch | mountHandleMismatch
deriving DecidableEq

def DenialCode.debug : DenialCode → String
  | .policyDenied => "PolicyDenied"
  | .policyGenerationMismatch => "PolicyGenerationMismatch"
  | .policyDigestMismatch => "PolicyDigestMismatch"
  | .mutableImageReference => "MutableImageReference"
  | .imageDigestMismatch => "ImageDigestMismatch"
  | .nonCanonicalResource => "NonCanonicalResource"
  | .resourceGenerationMismatch => "ResourceGenerationMismatch"
  | .statePreconditionMismatch => "StatePreconditionMismatch"
  | .deviceIdentityMismatch => "DeviceIdentityMismatch"
  | .mountHandleMismatch => "MountHandleMismatch"

structure Denial where
  code : DenialCode
  requestId : String
  policyGeneration : Nat
  reason : Option ReasonCode
deriving DecidableEq

structure AuthorizedRequest where
  canonical : CanonicalRequest
  decision : Decision

def isAsciiHexdigit (b : UInt8) : Bool :=
  (48 ≤ b ∧ b ≤ 57) ∨ (97 ≤ b ∧ b ≤ 102) ∨ (65 ≤ b ∧ b ≤ 70)

def rsplitOnce (separator : Char) (text : List Char) : Option (List Char × List Char) :=
  if separator ∈ text then
    some (((text.reverse.dropWhile (· ≠ separator)).drop 1).reverse,
      (text.reverse.takeWhile (· ≠ separator)).reverse)
  else none

section Gate
variable (request : CanonicalRequest)

def Denial.new (code : DenialCode) : Denial :=
  ⟨code, request.context.requestId, request.policyGeneration, none⟩

def Denial.policy (decision : Decision) : Denial :=
  ⟨.policyDenied, request.context.requestId, decision.policyGeneration, some decision.reason⟩

def validatePolicyBinding : Except Denial Unit :=
  if request.policyGeneration ≠ request.policy.generation
      ∨ request.policyGeneration ≠ request.policy.document.generation then
    .error (.new request .policyGenerationMismatch)
  else if request.policyDigest ≠ request.policy.digest then
    .error (.new request .policyDigestMismatch)
  else .ok ()

def validateResourceUuid : Except Denial Unit :=
  let value := utf8 request.context.resource.id
  let valid := value.length = 36 ∧ value.zipIdx.all fun (byte, index) =>
    if index ∈ [8, 13, 18, 23] then byte = 45 else isAsciiHexdigit byte
  if valid then .ok () else .error (.new request .nonCanonicalResource)

def validateImage : Except Denial Unit :=
  match request.expected.image, request.observed.image with
  | some expected, some observed =>
    let validDigest := (utf8 expected.digest).take 7 = utf8 "sha256:" ∧
      ((utf8 expected.digest).drop 7).length = 64 ∧
      ((utf8 expected.digest).drop 7).all isAsciiHexdigit
    let pinned := (rsplitOnce '@' expected.reference.toList).any
      fun (_, referenceDigest) => referenceDigest = expected.digest.toList
    if ¬validDigest ∨ ¬pinned then .error (.new request .mutableImageReference)
    else if expected ≠ observed
        ∨ request.context.facts.imageDigest ≠ some expected.digest then
      .error (.new request .imageDigestMismatch)
    else .ok ()
  | expected, observed =>
    if expected = none ∧ observed = none ∧ request.context.facts.imageDigest = none then .ok ()
    else .error (.new request .imageDigestMismatch)

def deviceBindingMatchesFacts : Bool :=
  match request.context.facts.deviceClasses, request.expected.deviceIdentity with
  | [], none => true
  | [deviceClass], some device => deviceClass = device.deviceClass
  | _, _ => false

def mountBindingsMatchFacts : Bool :=
  let unmatched := request.expected.mountHandles.foldlM (fun unmatched handle =>
    if handle.mountClass ∈ unmatched then some (unmatched.erase handle.mountClass) else none)
    request.context.facts.mounts
  unmatched = some []

def validateCanonicalBindings : Except Denial Unit := do
  validateResourceUuid request
  validateImage request
  if request.expected.resourceGeneration ≠ request.context.resource.generation
      ∨ request.expected.resourceGeneration ≠ request.observed.resourceGeneration then
    .error (.new request .resourceGenerationMismatch)
  else if request.context.resource.kind = .container ∧ request.expected.statePrecondition = none
      ∨ request.expected.statePrecondition ≠ request.context.facts.lifecycleState
      ∨ request.expected.statePrecondition ≠ request.observed.statePrecondition then
    .error (.new request .statePreconditionMismatch)
  else if request.expected.deviceIdentity ≠ request.observed.deviceIdentity
      ∨ deviceBindingMatchesFacts request = false then
    .error (.new request .deviceIdentityMismatch)
  else if request.expected.mountHandles ≠ request.observed.mountHandles
      ∨ mountBindingsMatchFacts request = false then
    .error (.new request .mountHandleMismatch)
  else .ok ()

def authorize : Except Denial AuthorizedRequest := do
  validatePolicyBinding request
  validateCanonicalBindings request
  let decision := evaluate request.policy.document request.context
  if decision.allowed then .ok ⟨request, decision⟩
  else .error (.policy request decision)

def policyWouldDeny : Except Denial Bool := do
  validatePolicyBinding request
  validateCanonicalBindings request
  .ok !(evaluate request.policy.document request.context).allowed

def authorizeEmergency : Except Denial AuthorizedRequest := do
  validatePolicyBinding request
  validateCanonicalBindings request
  .ok ⟨request, true, .emergencyOverride, "emergency.exact-scope", request.policyGeneration,
    some .roleNotAuthorized⟩

end Gate

/-! A proof is of the request, and says what the policy says or that it was overridden. -/

theorem evaluate_reason (document : PolicyDocument) (request : RequestContext) :
    (evaluate document request).reason ≠ .emergencyOverride := by
  have henforced : (enforcedDecision document request).reason ≠ .emergencyOverride := by
    unfold enforcedDecision decision
    repeat' split
    all_goals exact fun h => nomatch h
  rw [evaluate]
  cases document.mode with
  | disabled => exact fun h => nomatch h
  | shadow =>
    dsimp only
    split
    · exact henforced
    · exact fun h => nomatch h
  | enforce => exact henforced

variable {request : CanonicalRequest} {proof : AuthorizedRequest}

theorem authorize_eq_ok
    (h : authorize request = .ok proof) :
    proof = ⟨request, evaluate request.policy.document request.context⟩ ∧
      (evaluate request.policy.document request.context).allowed = true := by
  obtain ⟨-, -, h⟩ := Except.bind_eq_ok.mp h
  obtain ⟨-, -, h⟩ := Except.bind_eq_ok.mp h
  dsimp only at h
  split at h
  next hallowed =>
    cases h
    exact ⟨rfl, hallowed⟩
  · cases h

theorem policyWouldDeny_eq_ok {denied : Bool}
    (h : policyWouldDeny request = .ok denied) :
    denied = !(evaluate request.policy.document request.context).allowed := by
  obtain ⟨-, -, h⟩ := Except.bind_eq_ok.mp h
  obtain ⟨-, -, h⟩ := Except.bind_eq_ok.mp h
  cases h
  rfl

theorem authorizeEmergency_eq_ok
    (h : authorizeEmergency request = .ok proof) :
    proof.canonical = request ∧ proof.decision.reason = .emergencyOverride := by
  obtain ⟨-, -, h⟩ := Except.bind_eq_ok.mp h
  obtain ⟨-, -, h⟩ := Except.bind_eq_ok.mp h
  cases h
  exact ⟨rfl, rfl⟩

end Ferrocrate.Authorization.Gate

import Ferrocrate.Agent.NetdSequence
import Ferrocrate.Agent.Transition

/-! The agent brings its node to desired states: operations get reserved revisions, and the helper
takes each one that is newer than the floor of its overlay. -/
namespace Ferrocrate.Agent
open Lib
open Netd

structure AgentState where
  clusterEpoch : UInt64
  appliedRevision : UInt64
  overlays : List String
  leaseExpiry : Int64
deriving DecidableEq

inductive AgentError where
  | oversized
  | wrongEpoch
  | staleRevision
  | expiredLease
  | invalidSignature
  | invalidAuthorization
  | netd
  | state

def maxMessageBytes : Nat := 1024 * 1024

structure NodeAgent (pk : AgentPackages) where
  clusterId : String
  signingKey : Bytes
  controllerKeys : List Bytes
  netdEnvelopeSigner : pk.ed.SigningKey

/-- What becomes of an operation that reaches the helper. Where the helper refuses an operation it
has validated, it has rolled the floor back or not. -/
inductive NetdOutcome where
  /-- It is not delivered, or refused before the policy sees it. -/
  | unreached
  | executed (answered : Bool)
  | refused (rolledBack : Bool)
deriving DecidableEq

structure ReconcileCall where
  desired : DesiredState
  encodedBundle : Bytes
  nowUnix : Int64
  /-- The sequence can store the reservation for this child. -/
  stored : Nat → Bool
  outcome : Nat → NetdOutcome
  /-- The helper's clock when it sees the operation. -/
  helperNow : Nat → UInt64
  saved : Bool

/-- The agent's state, its sequence and the helper's policy; what was sent for the desired states,
accepted, executed and refused as stale, the oldest first. -/
structure AgentHost (pk : AgentPackages) where
  state : AgentState
  sequence : SequenceHost
  policy : Policy pk.toPackages
  sent : List (SequenceValue × List SignedEnvelope)
  accepted : List DesiredState
  executed : List SignedEnvelope
  stale : List SignedEnvelope

def desiredVersion (desired : DesiredState) : SequenceValue :=
  ⟨desired.clusterEpoch, desired.revision⟩

/-- What the agent keeps of an operation when it gives it a revision of its own. -/
def unsequenced (operation : GrantedEnvelope) : SignedEnvelope :=
  { operation.envelope with epoch := 0, revision := 0, signature := "" }

section Packages
variable {pk : AgentPackages}

namespace NodeAgent
variable (agent : NodeAgent pk)

def readKey (bytes : Bytes) : Option pk.ed.VerifyingKey :=
  if h : bytes.length = 32 then pk.ed.fromBytes ⟨bytes, h⟩ else none

def verifySignature (desired : DesiredState) : Bool :=
  match readKey agent.signingKey with
  | none => false
  | some key =>
    if h : desired.signature.length = 64 then
      pk.ed.verify key (pk.encodeToVec { desired with signature := [] }) ⟨desired.signature, h⟩
    else false

def isStale (desired : DesiredState) (current : AgentState) : Bool :=
  desired.clusterEpoch < current.clusterEpoch || (desired.clusterEpoch = current.clusterEpoch &&
    (desired.revision < current.appliedRevision || (desired.revision = current.appliedRevision &&
      desired.leaseExpiresUnix ≤ current.leaseExpiry)))

def verifiedBundle (call : ReconcileCall) (current : AgentState) :
    Except AgentError DesiredAuthorizationBundle :=
  match agent.controllerKeys.findSome? fun bytes =>
      (readKey bytes).bind fun key => (DesiredAuthorizationBundle.decodeAndVerify pk
        call.encodedBundle call.desired key call.nowUnix).toOption with
  | none => .error .invalidAuthorization
  | some bundle =>
    if maxMessageBytes < (pk.encodeToVec call.desired).length then .error .oversized
    else if call.desired.clusterId ≠ agent.clusterId then .error .wrongEpoch
    else if call.desired.leaseExpiresUnix ≤ call.nowUnix then .error .expiredLease
    else if !agent.verifySignature call.desired then .error .invalidSignature
    else if isStale call.desired current then .error .staleRevision
    else
      match bundle.validateTransition pk call.desired current.overlays with
      | .error _ => .error .invalidAuthorization
      | .ok () => .ok bundle

def signEnvelope (envelope : SignedEnvelope) (reserved : SequenceValue) : Option SignedEnvelope :=
  let unsigned := { envelope with epoch := reserved.epoch, revision := reserved.revision, signature := "" }
  (pk.signedJson unsigned).map fun message =>
    { unsigned with signature := pk.base64Encode (pk.ed.sign agent.netdEnvelopeSigner message).val }

def mapOperations (call : ReconcileCall) :
    Nat → List GrantedEnvelope → SequenceHost → Except AgentError (List GrantedEnvelope) × SequenceHost
  | _, [], sequence => (.ok [], sequence)
  | child, operation :: operations, sequence =>
    match SequenceHost.reserveController call.desired.clusterEpoch call.desired.revision
        (.ofNat child) (call.stored child) sequence with
    | (.error _, sequence) => (.error .netd, sequence)
    | (.ok reserved, sequence) =>
      match agent.signEnvelope operation.envelope reserved with
      | none => (.error .netd, sequence)
      | some envelope =>
        match mapOperations call (child + 1) operations sequence with
        | (.ok rest, sequence) => (.ok ({ operation with envelope := envelope } :: rest), sequence)
        | (.error e, sequence) => (.error e, sequence)

end NodeAgent

namespace AgentHost

def deliver (envelope : SignedEnvelope) (outcome : NetdOutcome) (now : UInt64) (h : AgentHost pk) :
    Bool × AgentHost pk :=
  match outcome with
  | .unreached => (false, h)
  | .executed answered =>
    match h.policy.validate envelope now with
    | .ok policy => (answered, { h with policy := policy, executed := h.executed ++ [envelope] })
    | .error .staleRevision => (false, { h with stale := h.stale ++ [envelope] })
    | .error _ => (false, h)
  | .refused rolledBack =>
    match h.policy.validate envelope now with
    | .ok policy =>
      (false, { h with policy :=
        if rolledBack then policy.rollback envelope.request.overlayId envelope.epoch envelope.revision
        else policy })
    | .error .staleRevision => (false, { h with stale := h.stale ++ [envelope] })
    | .error _ => (false, h)

def applyAuthorized (call : ReconcileCall) :
    Nat → List GrantedEnvelope → AgentHost pk → Bool × AgentHost pk
  | _, [], h => (true, h)
  | child, operation :: operations, h =>
    match deliver operation.envelope (call.outcome child) (call.helperNow child) h with
    | (true, h) => applyAuthorized call (child + 1) operations h
    | (false, h) => (false, h)

def sending (h : AgentHost pk) (desired : DesiredState) (bundle : DesiredAuthorizationBundle)
    (sequence : SequenceHost) : AgentHost pk :=
  { h with
    sequence := sequence
    sent := h.sent ++ [(desiredVersion desired, bundle.operations.map unsequenced)] }

def carryOut (agent : NodeAgent pk) (call : ReconcileCall) (bundle : DesiredAuthorizationBundle)
    (h : AgentHost pk) : Except AgentError UInt64 × AgentHost pk :=
  match agent.mapOperations call 0 bundle.operations h.sequence with
  | (.error e, sequence) => (.error e, { h with sequence := sequence })
  | (.ok operations, sequence) =>
    match applyAuthorized call 0 operations (h.sending call.desired bundle sequence) with
    | (false, h) => (.error .netd, h)
    | (true, h) =>
      if call.saved then
        (.ok call.desired.revision,
          { h with
            state := ⟨call.desired.clusterEpoch, call.desired.revision,
              call.desired.overlays.map (·.overlayId), call.desired.leaseExpiresUnix⟩
            accepted := h.accepted ++ [call.desired] })
      else (.error .state, h)

def reconcileWithBundle (agent : NodeAgent pk) (call : ReconcileCall) (h : AgentHost pk) :
    Except AgentError UInt64 × AgentHost pk :=
  match agent.verifiedBundle call h.state with
  | .error e => (.error e, h)
  | .ok bundle => carryOut agent call bundle h

def apply (agent : NodeAgent pk) (h : AgentHost pk) (call : ReconcileCall) : AgentHost pk :=
  (reconcileWithBundle agent call h).2

def fresh (state : AgentState) (sequence : SequenceHost) (cluster node : String)
    (key : pk.ed.VerifyingKey) : AgentHost pk :=
  ⟨state, sequence, .new cluster node key, [], [], [], []⟩

end AgentHost

/-! What the agent and the helper agree on. -/

def AgentState.order (state : AgentState) : ℕ ×ₗ ℕ ×ₗ ℤ :=
  toLex (state.clusterEpoch.toNat, toLex (state.appliedRevision.toNat, state.leaseExpiry.toInt))

def desiredOrder (desired : DesiredState) : ℕ ×ₗ ℕ ×ₗ ℤ :=
  toLex (desired.clusterEpoch.toNat, toLex (desired.revision.toNat, desired.leaseExpiresUnix.toInt))

structure Agreement (h : AgentHost pk) : Prop where
  increasing : h.accepted.Pairwise fun a b => desiredOrder a < desiredOrder b
  refused : ∀ envelope ∈ h.stale, envelope ∈ h.executed

/-- Two lists of operations of one revision agree on an overlay: both have it at the same place,
with the same operation or with a longer lease in the later one. -/
def Aligned (earlier later : List SignedEnvelope) : Prop :=
  ∀ (i j : Nat) (a b : SignedEnvelope), earlier[i]? = some a → later[j]? = some b →
    a.request.overlayId = b.request.overlayId → i = j ∧ (b = a ∨ a.leaseExpiresUnixSecs < b.leaseExpiresUnixSecs)

namespace AgentHost

/-- No reservation is for a later desired state, and what was sent for this revision before is sent
again. -/
structure InTurn (h : AgentHost pk) (desired : SequenceValue) (operations : List SignedEnvelope) :
    Prop where
  last : ∀ state earlier value, h.sequence.running = some state →
    state.Reserved earlier value → earlier.order ≤ desired.order
  aligned : ∀ sent, (desired, sent) ∈ h.sent → Aligned sent operations

/-- The helper rolls the floor back with each operation that it refuses, and the desired state is in
turn where the agent takes it. -/
def Allowed (agent : NodeAgent pk) (h : AgentHost pk) (call : ReconcileCall) : Prop :=
  (∀ child, call.outcome child ≠ .refused false) ∧
  ∀ bundle, agent.verifiedBundle call h.state = .ok bundle →
    h.InTurn (desiredVersion call.desired) (bundle.operations.map unsequenced)

def FailsSafely (agent : NodeAgent pk) (h : AgentHost pk) (call : ReconcileCall) : Prop :=
  ∀ e, (reconcileWithBundle agent call h).1 = .error e → (apply agent h call).state = h.state

end AgentHost

theorem NodeAgent.order_lt_of_not_isStale {desired : DesiredState} {current : AgentState}
    (h : NodeAgent.isStale desired current = false) : current.order < desiredOrder desired := by
  simp only [isStale, Bool.or_eq_false_iff, Bool.and_eq_false_iff, decide_eq_false_iff_not,
    UInt64.lt_iff_toNat_lt, ← UInt64.toNat_inj, Int64.le_iff_toInt_le] at h
  rw [AgentState.order, desiredOrder, Prod.Lex.toLex_lt_toLex, Prod.Lex.toLex_lt_toLex]
  omega

inductive Mapped (agent : NodeAgent pk) (desired : DesiredState) (last : SequenceState) :
    Nat → List GrantedEnvelope → List GrantedEnvelope → Prop
  | nil (child : Nat) : Mapped agent desired last child [] []
  | cons {child : Nat} {operation : GrantedEnvelope} {operations mapped : List GrantedEnvelope}
      {value : SequenceValue} {envelope : SignedEnvelope}
      (signed : agent.signEnvelope operation.envelope value = some envelope)
      (reserved : last.controller.get
        (reservationKey desired.clusterEpoch desired.revision (.ofNat child)) = some value)
      (rest : Mapped agent desired last (child + 1) operations mapped) :
      Mapped agent desired last child (operation :: operations)
        ({ operation with envelope := envelope } :: mapped)

theorem signEnvelope_eq_some {agent : NodeAgent pk} {envelope signed : SignedEnvelope}
    {value : SequenceValue} (h : agent.signEnvelope envelope value = some signed) :
    signed.floor = ⟨value.epoch, value.revision, envelope.leaseExpiresUnixSecs⟩ ∧
      signed.request = envelope.request := by
  obtain ⟨message, -, rfl⟩ := Option.map_eq_some_iff.mp h
  exact ⟨rfl, rfl⟩

namespace NodeAgent
variable {agent : NodeAgent pk} {call : ReconcileCall} {child : Nat}
  {operations : List GrantedEnvelope} {sequence sequence' : SequenceHost}
  {result : Except AgentError (List GrantedEnvelope)}

theorem mapOperations_cons {operation : GrantedEnvelope}
    (h : agent.mapOperations call child (operation :: operations) sequence = (result, sequence')) :
    ∃ reserved between, SequenceHost.reserveController call.desired.clusterEpoch
        call.desired.revision (.ofNat child) (call.stored child) sequence = (reserved, between) ∧
      ((∃ e, result = .error e) ∧ sequence' = between ∨
        ∃ value envelope rest, reserved = .ok value ∧
          agent.signEnvelope operation.envelope value = some envelope ∧
          agent.mapOperations call (child + 1) operations between = (rest, sequence') ∧
          ∀ mapped, result = .ok mapped → ∃ others, rest = .ok others ∧
            mapped = { operation with envelope := envelope } :: others) := by
  unfold mapOperations at h
  obtain ⟨reserved, between, hreserve⟩ : ∃ reserved between,
      SequenceHost.reserveController call.desired.clusterEpoch call.desired.revision
        (.ofNat child) (call.stored child) sequence = (reserved, between) := ⟨_, _, rfl⟩
  refine ⟨reserved, between, hreserve, ?_⟩
  rw [hreserve] at h
  cases reserved with
  | error e =>
    cases h
    exact .inl ⟨⟨_, rfl⟩, rfl⟩
  | ok value =>
    dsimp only at h
    cases hsigned : agent.signEnvelope operation.envelope value with
    | none =>
      rw [hsigned] at h
      cases h
      exact .inl ⟨⟨_, rfl⟩, rfl⟩
    | some envelope =>
      rw [hsigned] at h
      dsimp only at h
      rcases hrest : agent.mapOperations call (child + 1) operations between with ⟨rest, last⟩
      rw [hrest] at h
      right
      cases rest with
      | ok others =>
        cases h
        exact ⟨value, envelope, .ok others, rfl, hsigned, rfl, fun mapped hm =>
          ⟨others, rfl, (Except.ok.inj hm).symm⟩⟩
      | error e =>
        cases h
        exact ⟨value, envelope, .error e, rfl, hsigned, rfl, by simp⟩

theorem mapOperations_none (hrunning : sequence.running = none)
    (h : agent.mapOperations call child operations sequence = (result, sequence')) :
    sequence'.running = none ∧ ∀ mapped, result = .ok mapped → mapped = [] := by
  cases operations with
  | nil =>
    cases h
    exact ⟨hrunning, fun mapped hm => (Except.ok.inj hm).symm⟩
  | cons operation operations =>
    obtain ⟨reserved, between, hreserve, hrest⟩ := mapOperations_cons h
    have herror : reserved = .error .corrupt ∧ between = sequence := by
      unfold SequenceHost.reserveController at hreserve
      rw [hrunning] at hreserve
      cases hreserve
      exact ⟨rfl, rfl⟩
    obtain ⟨rfl, rfl⟩ := herror
    obtain ⟨⟨e, rfl⟩, rfl⟩ | ⟨value, envelope, rest, hvalue, -⟩ := hrest
    · exact ⟨hrunning, by simp⟩
    · cases hvalue

theorem mapOperations_spec {start state : SequenceState} (hrunning : sequence.running = some state)
    (hlast : ∀ a v, start.Reserved a v → a.order ≤ (desiredVersion call.desired).order)
    (hreserving : SequenceState.Reserving (desiredVersion call.desired) start state)
    (h : agent.mapOperations call child operations sequence = (result, sequence')) :
    ∃ last, sequence'.running = some last ∧ last.Extends state ∧
      SequenceState.Reserving (desiredVersion call.desired) start last ∧
      ∀ mapped, result = .ok mapped → Mapped agent call.desired last child operations mapped := by
  induction operations generalizing child sequence state result with
  | nil =>
    cases h
    refine ⟨state, hrunning, .refl state, hreserving, ?_⟩
    intro mapped hm
    rw [← Except.ok.inj hm]
    exact .nil child
  | cons operation operations ih =>
    obtain ⟨reserved, between, hreserve, hrest⟩ := mapOperations_cons h
    have hbetween : ∃ next, between.running = some next ∧ next.Extends state ∧
        SequenceState.Reserving (desiredVersion call.desired) start next ∧ ∀ value, reserved = .ok value →
          next.controller.get (reservationKey call.desired.clusterEpoch call.desired.revision
            (.ofNat child)) = some value := by
      obtain ⟨rfl, hvalue⟩ | ⟨state', value, hstate, hnone, hbump, rfl, hvalue⟩ :=
        SequenceHost.reserveController_cases hreserve
      · refine ⟨state, hrunning, .refl state, hreserving, ?_⟩
        intro value hv
        obtain ⟨state', hstate, hget⟩ := hvalue value hv
        obtain rfl := Option.some.inj (hrunning.symm.trans hstate)
        exact hget
      · obtain rfl := Option.some.inj (hrunning.symm.trans hstate)
        refine ⟨_, SequenceHost.persistLocked_running .., ⟨(SequenceState.bump_lt hbump).le, ?_⟩,
          hreserving.insert hlast hbump hnone, ?_⟩
        · intro key v hget
          exact OrdMap.get_insert_of_get_eq_none value hnone hget
        · intro value' hv
          obtain rfl := hvalue value' hv
          exact OrdMap.get_insert_self ..
    obtain ⟨next, hnext, hextends, hreserving', hvalue⟩ := hbetween
    obtain ⟨⟨e, rfl⟩, rfl⟩ | ⟨value, envelope, rest, hok, hsigned, hmap, hmapped⟩ := hrest
    · exact ⟨next, hnext, hextends, hreserving', by simp⟩
    · obtain ⟨last, hlast', hextends', hreserving'', hspec⟩ := ih hnext hreserving' hmap
      refine ⟨last, hlast', hextends.trans hextends', hreserving'', ?_⟩
      intro mapped hm
      obtain ⟨others, hothers, rfl⟩ := hmapped mapped hm
      exact .cons hsigned (hextends'.controller _ _ (hvalue value hok)) (hspec others hothers)

end NodeAgent

/-! The helper: an operation is stale only by the floor of its overlay. -/

theorem not_refuses_of_lt {floor : RevisionFloor} {epoch revision : UInt64} (lease : UInt64)
    (h : floor.version < Netd.version epoch revision) :
    floor.refuses epoch revision lease = false := by
  rw [RevisionFloor.version, Netd.version, Netd.version, Prod.Lex.toLex_lt_toLex] at h
  simp only [RevisionFloor.refuses, Bool.or_eq_false_iff, Bool.and_eq_false_iff,
    decide_eq_false_iff_not, UInt64.lt_iff_toNat_lt, ← UInt64.toNat_inj]
  dsimp only at h
  omega

theorem checkSignature_ne_stale {key : pk.ed.VerifyingKey} {signature : String}
    {message : Option Bytes} : checkSignature pk.toPackages key signature message ≠ .error .staleRevision := by
  unfold checkSignature
  split
  · simp
  · simp
  · split_ifs <;> simp

theorem validateRequest_ne_stale {request : NetdRequest} :
    validateRequest pk.toPackages request ≠ .error .staleRevision := by
  unfold validateRequest
  dsimp only
  split_ifs <;> simp

theorem validate_eq_stale {p : Policy pk.toPackages} {envelope : SignedEnvelope} {now : UInt64}
    (h : p.validate envelope now = .error .staleRevision) :
    ∃ floor, p.revisions.get envelope.request.overlayId = some floor ∧
      floor.refuses envelope.epoch envelope.revision envelope.leaseExpiresUnixSecs = true := by
  unfold Policy.validate Policy.accept at h
  by_cases hscope : envelope.clusterId ≠ p.cluster ∨ envelope.nodeId ≠ p.node
  · rw [if_pos hscope] at h
    cases h
  rw [if_neg hscope] at h
  by_cases hlease : envelope.floor.leaseExpiresUnixSecs ≤ now
  · rw [if_pos hlease] at h
    cases h
  rw [if_neg hlease] at h
  cases hsignature : checkSignature pk.toPackages p.key envelope.signature
      (pk.signedJson { envelope with signature := "" }) with
  | error e =>
    rw [hsignature] at h
    obtain rfl : e = .staleRevision := Except.error.inj h
    exact absurd hsignature checkSignature_ne_stale
  | ok u =>
    rw [hsignature] at h
    cases hrequest : validateRequest pk.toPackages envelope.request with
    | error e =>
      rw [hrequest] at h
      obtain rfl : e = .staleRevision := Except.error.inj h
      exact absurd hrequest validateRequest_ne_stale
    | ok u =>
      rw [hrequest] at h
      cases hfloor : p.revisions.get envelope.request.overlayId with
      | none =>
        rw [hfloor] at h
        cases h
      | some floor =>
        refine ⟨floor, rfl, ?_⟩
        by_contra hpasses
        rw [hfloor] at h
        replace h : (if floor.refuses envelope.epoch envelope.revision
            envelope.leaseExpiresUnixSecs = true then Except.error RejectionCode.staleRevision
          else Except.ok (p.raised envelope.request.overlayId envelope.floor))
            = .error .staleRevision := h
        rw [if_neg hpasses] at h
        cases h

namespace AgentHost
variable {h h' : AgentHost pk} {envelope : SignedEnvelope}

theorem deliver_cases {outcome : NetdOutcome} {now : UInt64} {done : Bool}
    (hrolls : outcome ≠ .refused false) (heq : deliver envelope outcome now h = (done, h')) :
    (done = false ∧ ∃ policy, h' = { h with policy := policy } ∧ ∀ scope floor,
        policy.revisions.get scope = some floor → h.policy.revisions.get scope = some floor) ∨
    h' = { h with
      policy := h.policy.raised envelope.request.overlayId envelope.floor
      executed := h.executed ++ [envelope] } ∨
    (done = false ∧ h' = { h with stale := h.stale ++ [envelope] } ∧
      h.policy.validate envelope now = .error .staleRevision) := by
  have hsame : ∃ policy, h = { h with policy := policy } ∧ ∀ scope floor,
      policy.revisions.get scope = some floor → h.policy.revisions.get scope = some floor :=
    ⟨h.policy, rfl, fun _ _ hfloor => hfloor⟩
  cases outcome with
  | unreached =>
    cases heq
    exact .inl ⟨rfl, hsame⟩
  | executed answered =>
    unfold deliver at heq
    dsimp only at heq
    split at heq
    · rename_i policy hvalidate
      obtain ⟨rfl, -⟩ := Policy.validate_eq_ok hvalidate
      cases heq
      exact .inr (.inl rfl)
    · rename_i hvalidate
      cases heq
      exact .inr (.inr ⟨rfl, rfl, hvalidate⟩)
    · cases heq
      exact .inl ⟨rfl, hsame⟩
  | refused rolledBack =>
    obtain rfl : rolledBack = true := by simpa using hrolls
    unfold deliver at heq
    dsimp only at heq
    split at heq
    · rename_i policy hvalidate
      obtain ⟨rfl, -⟩ := Policy.validate_eq_ok hvalidate
      cases heq
      refine .inl ⟨rfl, _, rfl, ?_⟩
      intro scope floor hfloor
      have hrolled := h.policy.rollback_raised envelope.request.overlayId envelope.floor
      rw [if_pos rfl, show envelope.epoch = envelope.floor.epoch from rfl,
        show envelope.revision = envelope.floor.revision from rfl, hrolled] at hfloor
      simp only [OrdMap.get_erase, OrdMap.get_insert] at hfloor
      split_ifs at hfloor
      exact hfloor
    · rename_i hvalidate
      cases heq
      exact .inr (.inr ⟨rfl, rfl, hvalidate⟩)
    · cases heq
      exact .inl ⟨rfl, hsame⟩

end AgentHost

/-! A bundle that passes names every overlay once. -/

section Overlays
open DesiredAuthorizationBundle

def overlaysOf (operations : List GrantedEnvelope) : List String :=
  operations.map (·.envelope.request.overlayId)

variable {desired : DesiredState}

theorem transitionStep_new {t t' : Transition}
    {operation : GrantedEnvelope} (h : transitionStep pk desired t operation = .ok t') :
    (operation.envelope.request.overlayId ∉ t.applies ∧
      t'.applies = insert operation.envelope.request.overlayId t.applies ∧
      t'.removals = t.removals) ∨
    (operation.envelope.request.overlayId ∉ t.removals ∧
      t'.removals = insert operation.envelope.request.overlayId t.removals ∧
      t'.applies = t.applies) := by
  unfold transitionStep at h
  split at h
  · rename_i hrequest
    split at h
    · cases h
    obtain ⟨hnew, h⟩ := Except.ite_error_eq_ok.mp h
    cases h
    rw [hrequest]
    exact .inl ⟨(not_or.mp hnew).2, rfl, rfl⟩
  · rename_i hrequest
    obtain ⟨hnew, h⟩ := Except.ite_error_eq_ok.mp h
    cases h
    rw [hrequest]
    exact .inr ⟨hnew, rfl, rfl⟩
  all_goals cases h

theorem transition_nodup {t t' : Transition}
    {operations : List GrantedEnvelope}
    (h : operations.foldlM (transitionStep pk desired) t = .ok t')
    (hdisjoint : Disjoint t'.applies t'.removals) :
    t.applies ⊆ t'.applies ∧ t.removals ⊆ t'.removals ∧ (overlaysOf operations).Nodup ∧
      ∀ id ∈ overlaysOf operations, id ∉ t.applies ∧ id ∉ t.removals := by
  induction operations generalizing t with
  | nil =>
    cases h
    simp [overlaysOf]
  | cons operation operations ih =>
    rw [List.foldlM_cons] at h
    obtain ⟨u, hu, h⟩ := Except.bind_eq_ok.mp h
    obtain ⟨happlies, hremovals, hnodup, hnew⟩ := ih h
    have hcons : overlaysOf (operation :: operations)
        = operation.envelope.request.overlayId :: overlaysOf operations := rfl
    rw [hcons, List.nodup_cons]
    have hnot : ∀ id, id ∈ t'.applies → id ∈ t'.removals → False := fun id ha hr =>
      Finset.disjoint_left.mp hdisjoint ha hr
    obtain ⟨hfresh, hu, hsame⟩ | ⟨hfresh, hu, hsame⟩ := transitionStep_new hu
    · rw [hu, Finset.insert_subset_iff] at happlies
      rw [hsame] at hremovals
      refine ⟨happlies.2, hremovals, ⟨fun hmem => ?_, hnodup⟩, ?_⟩
      · exact (hnew _ hmem).1 (by simp [hu])
      · intro id hid
        rcases List.mem_cons.mp hid with rfl | hid
        · exact ⟨hfresh, fun hr => hnot _ happlies.1 (hremovals hr)⟩
        · exact ⟨fun ha => (hnew id hid).1 (by simp [hu, ha]), hsame ▸ (hnew id hid).2⟩
    · rw [hu, Finset.insert_subset_iff] at hremovals
      rw [hsame] at happlies
      refine ⟨happlies, hremovals.2, ⟨fun hmem => ?_, hnodup⟩, ?_⟩
      · exact (hnew _ hmem).2 (by simp [hu])
      · intro id hid
        rcases List.mem_cons.mp hid with rfl | hid
        · exact ⟨fun ha => hnot _ (happlies ha) hremovals.1, hfresh⟩
        · exact ⟨hsame ▸ (hnew id hid).1, fun hr => (hnew id hid).2 (by simp [hu, hr])⟩

theorem nodup_of_validateTransition {b : DesiredAuthorizationBundle}
    {current : List String} (h : b.validateTransition pk desired current = .ok ()) :
    (overlaysOf b.operations).Nodup := by
  unfold validateTransition at h
  obtain ⟨t, ht, h⟩ := Except.bind_eq_ok.mp h
  obtain ⟨hsets, -⟩ := Except.ite_error_eq_ok.mp h
  obtain ⟨happlies, hremovals⟩ := not_or.mp hsets
  apply (transition_nodup ht _).2.2.1
  rw [not_not.mp happlies, not_not.mp hremovals]
  exact Finset.disjoint_sdiff

end Overlays

namespace NodeAgent
variable {agent : NodeAgent pk} {call : ReconcileCall} {current : AgentState}
  {bundle : DesiredAuthorizationBundle}

theorem verifiedBundle_eq_ok (h : agent.verifiedBundle call current = .ok bundle) :
    (agent.controllerKeys.findSome? fun bytes =>
      (readKey bytes).bind fun key => (DesiredAuthorizationBundle.decodeAndVerify pk
        call.encodedBundle call.desired key call.nowUnix).toOption) = some bundle ∧
    current.order < desiredOrder call.desired ∧ (overlaysOf bundle.operations).Nodup := by
  unfold verifiedBundle at h
  split at h
  · cases h
  · rename_i found hfound
    obtain ⟨-, h⟩ := Except.ite_error_eq_ok.mp h
    obtain ⟨-, h⟩ := Except.ite_error_eq_ok.mp h
    obtain ⟨-, h⟩ := Except.ite_error_eq_ok.mp h
    obtain ⟨-, h⟩ := Except.ite_error_eq_ok.mp h
    obtain ⟨hstale, h⟩ := Except.ite_error_eq_ok.mp h
    split at h
    · cases h
    · rename_i htransition
      cases h
      exact ⟨hfound, order_lt_of_not_isStale (Bool.not_eq_true _ ▸ hstale),
        nodup_of_validateTransition htransition⟩

end NodeAgent

namespace AgentHost
variable {agent : NodeAgent pk} {h h' : AgentHost pk}

/-- The floor that an executed operation has left for its overlay, under the value that the table
has for it. -/
inductive ExecutedFloor (agent : NodeAgent pk) (h : AgentHost pk) : String → RevisionFloor → Prop
  | intro {state : SequenceState} {desired value : SequenceValue} {sent : List SignedEnvelope}
      {child : Nat} {operation envelope : SignedEnvelope}
      (running : h.sequence.running = some state) (known : (desired, sent) ∈ h.sent)
      (at_child : sent[child]? = some operation)
      (reserved : state.controller.get
        (reservationKey desired.epoch desired.revision (.ofNat child)) = some value)
      (signed : agent.signEnvelope operation value = some envelope)
      (executed : envelope ∈ h.executed) :
      ExecutedFloor agent h operation.request.overlayId envelope.floor

def Floors (agent : NodeAgent pk) (h : AgentHost pk) : Prop :=
  ∀ scope floor, h.policy.revisions.get scope = some floor → h.ExecutedFloor agent scope floor

variable {before : AgentHost pk} {operations all : List GrantedEnvelope}
  {operation : GrantedEnvelope} {child : Nat} {envelope : SignedEnvelope} {call : ReconcileCall}
  {start last : SequenceState}

theorem ExecutedFloor.mono {state : SequenceState} {scope : String} {floor : RevisionFloor}
    (hf : h.ExecutedFloor agent scope floor) (hstate : h.sequence.running = some state)
    (hrunning : h'.sequence.running = some last) (hextends : last.Extends state)
    (hsent : h.sent ⊆ h'.sent) (hexecuted : h.executed ⊆ h'.executed) :
    h'.ExecutedFloor agent scope floor := by
  obtain ⟨hstate', hknown, hchild, hreserved, hsigned, hmem⟩ := hf
  obtain rfl := Option.some.inj (hstate.symm.trans hstate')
  exact ⟨hrunning, hsent hknown, hchild, hextends.controller _ _ hreserved, hsigned, hexecuted hmem⟩

theorem ExecutedFloor.same {scope : String} {floor : RevisionFloor}
    (hf : h.ExecutedFloor agent scope floor) (hsequence : h'.sequence = h.sequence)
    (hsent : h'.sent = h.sent) (hexecuted : h.executed ⊆ h'.executed) :
    h'.ExecutedFloor agent scope floor := by
  obtain ⟨hstate, hknown, hchild, hreserved, hsigned, hmem⟩ := hf
  exact ⟨hsequence ▸ hstate, hsent ▸ hknown, hchild, hreserved, hsigned, hexecuted hmem⟩

theorem executed_of_stale {desired value : SequenceValue} (hfloors : before.Floors agent)
    (hrunning : before.sequence.running = some start) (hextends : last.Extends start)
    (hascending : last.Ascending)
    (hturn : before.InTurn desired (all.map unsequenced)) (hchild : all[child]? = some operation)
    (hsigned : agent.signEnvelope operation.envelope value = some envelope)
    (hreserved : last.controller.get
      (reservationKey desired.epoch desired.revision (.ofNat child)) = some value)
    {floor : RevisionFloor}
    (hfloor : before.policy.revisions.get operation.envelope.request.overlayId = some floor)
    (hrefuses : floor.refuses value.epoch value.revision
      operation.envelope.leaseExpiresUnixSecs = true) :
    envelope ∈ before.executed := by
  generalize hscope : operation.envelope.request.overlayId = scope at hfloor
  obtain ⟨hstate, hknown, hchild', hreserved', hsigned', hexecuted⟩ := hfloors _ _ hfloor
  obtain rfl := Option.some.inj (hrunning.symm.trans hstate)
  obtain ⟨hversion, -⟩ := signEnvelope_eq_some hsigned'
  have hget := hextends.controller _ _ hreserved'
  rcases (hturn.last _ _ _ hrunning ⟨_, hreserved'⟩).lt_or_eq with hlt | heq
  · -- An earlier desired state has a lower value.
    have hvalue := hascending _ _ _ _ ⟨_, hget⟩ ⟨_, hreserved⟩ hlt
    have hpasses : ∀ lease lease', RevisionFloor.refuses ⟨_, _, lease⟩ _ _ lease' = false :=
      fun _ lease' => not_refuses_of_lt lease' hvalue
    rw [hversion, hpasses] at hrefuses
    cases hrefuses
  · -- This desired state has the overlay at one place only.
    obtain rfl := SequenceValue.order_injective heq
    obtain ⟨rfl, hsame⟩ := hturn.aligned _ hknown _ child _ (unsequenced operation) hchild'
      (by rw [List.getElem?_map, hchild]; rfl) hscope.symm
    obtain rfl := Option.some.inj (hget.symm.trans hreserved)
    rcases hsame with rfl | hlease
    · obtain rfl := Option.some.inj (hsigned.symm.trans hsigned')
      exact hexecuted
    · rw [hversion] at hrefuses
      have hle := by simpa [RevisionFloor.refuses] using hrefuses
      exact absurd hle (UInt64.not_le.mpr hlease)

/-- The helper while it gets the operations, of which these are left. -/
structure Sending (agent : NodeAgent pk) (before : AgentHost pk) (sequence : SequenceHost)
    (sent : List (SequenceValue × List SignedEnvelope)) (operations : List GrantedEnvelope)
    (h : AgentHost pk) : Prop where
  left : ∀ scope ∈ overlaysOf operations,
    h.policy.revisions.get scope = before.policy.revisions.get scope
  executed : before.executed ⊆ h.executed
  stale : ∀ envelope ∈ h.stale, envelope ∈ h.executed
  floors : h.Floors agent
  state : h.state = before.state
  accepted : h.accepted = before.accepted
  sequence : h.sequence = sequence
  sent : h.sent = sent

variable {sequence : SequenceHost} {sent : List (SequenceValue × List SignedEnvelope)}

theorem Sending.rest (hs : Sending agent before sequence sent operations h) :
    Sending agent before sequence sent [] h :=
  ⟨by simp [overlaysOf], hs.executed, hs.stale, hs.floors, hs.state, hs.accepted, hs.sequence,
    hs.sent⟩

theorem Sending.lower (hs : Sending agent before sequence sent (operation :: operations) h)
    {policy : Policy pk.toPackages} (hlower : ∀ scope floor, policy.revisions.get scope = some floor →
      h.policy.revisions.get scope = some floor) :
    Sending agent before sequence sent [] { h with policy := policy } where
  left := by simp [overlaysOf]
  executed := hs.executed
  stale := hs.stale
  floors := by
    intro scope floor hfloor
    exact (hs.floors scope floor (hlower scope floor hfloor)).same rfl rfl (List.Subset.refl _)
  state := hs.state
  accepted := hs.accepted
  sequence := hs.sequence
  sent := hs.sent

theorem Sending.execute {desired value : SequenceValue}
    (hs : Sending agent before sequence sent (operation :: operations) h)
    (hrunning : sequence.running = some last) (hsent : (desired, all.map unsequenced) ∈ sent)
    (hchild : all[child]? = some operation)
    (hsigned : agent.signEnvelope operation.envelope value = some envelope)
    (hreserved : last.controller.get
      (reservationKey desired.epoch desired.revision (.ofNat child)) = some value)
    (hnew : operation.envelope.request.overlayId ∉ overlaysOf operations) :
    Sending agent before sequence sent operations { h with
      policy := h.policy.raised envelope.request.overlayId envelope.floor
      executed := h.executed ++ [envelope] } := by
  obtain ⟨-, hrequest⟩ := signEnvelope_eq_some hsigned
  refine ⟨?_, ?_, ?_, ?_, hs.state, hs.accepted, hs.sequence, hs.sent⟩
  · intro scope hscope
    have hne : scope ≠ envelope.request.overlayId := by
      rintro rfl
      exact hnew (hrequest ▸ hscope)
    simpa [Policy.raised, OrdMap.get_insert, hne] using hs.left scope (List.mem_cons_of_mem _ hscope)
  · exact fun e he => List.mem_append_left _ (hs.executed he)
  · exact fun e he => List.mem_append_left _ (hs.stale e he)
  · intro scope floor hfloor
    simp only [Policy.raised, OrdMap.get_insert] at hfloor
    split_ifs at hfloor with hscope
    · rw [hscope, hrequest, ← Option.some.inj hfloor]
      change ExecutedFloor agent _ (unsequenced operation).request.overlayId _
      exact .intro (hs.sequence ▸ hrunning) (hs.sent ▸ hsent)
        (by rw [List.getElem?_map, hchild]; rfl) hreserved hsigned
        (List.mem_append_right _ List.mem_cons_self)
    · exact (hs.floors scope floor hfloor).same rfl rfl (List.subset_append_left ..)

theorem applyAuthorized_spec {operations mapped : List GrantedEnvelope} {done : Bool}
    (hmapped : Mapped agent call.desired last child operations mapped)
    (hleft : all.drop child = operations) (hfloors : before.Floors agent)
    (hrunning : before.sequence.running = some start) (hextends : last.Extends start)
    (hascending : last.Ascending) (hlast : sequence.running = some last)
    (hsent : (desiredVersion call.desired, all.map unsequenced) ∈ sent)
    (hturn : before.InTurn (desiredVersion call.desired) (all.map unsequenced))
    (hrolls : ∀ child, call.outcome child ≠ .refused false)
    (hnodup : (overlaysOf operations).Nodup)
    (hs : Sending agent before sequence sent operations h)
    (heq : applyAuthorized call child mapped h = (done, h')) :
    Sending agent before sequence sent [] h' := by
  induction hmapped generalizing h with
  | nil child =>
    cases heq
    exact hs
  | @cons child operation operations mapped value envelope hsigned hreserved hrest ih =>
    obtain ⟨hfloor, hrequest⟩ := signEnvelope_eq_some hsigned
    obtain ⟨hnew, hnodup⟩ := List.nodup_cons.mp hnodup
    have hchild : all[child]? = some operation := by rw [← List.head?_drop, hleft]; rfl
    unfold applyAuthorized at heq
    dsimp only at heq
    rcases hdeliver : deliver envelope (call.outcome child) (call.helperNow child) h with
      ⟨sent', next⟩
    rw [hdeliver] at heq
    obtain ⟨rfl, policy, rfl, hlower⟩ | rfl | ⟨rfl, rfl, hvalidate⟩ :=
      deliver_cases (hrolls child) hdeliver
    · cases heq
      exact hs.lower hlower
    · have hnext := hs.execute hlast hsent hchild hsigned hreserved hnew
      cases sent' with
      | false =>
        cases heq
        exact hnext.rest
      | true => exact ih (by rw [← List.tail_drop, hleft]; rfl) hnodup hnext heq
    · cases heq
      obtain ⟨floor, hget, hrefuses⟩ := validate_eq_stale hvalidate
      rw [hrequest, hs.left _ List.mem_cons_self] at hget
      replace hrefuses : floor.refuses envelope.floor.epoch envelope.floor.revision
          envelope.floor.leaseExpiresUnixSecs = true := hrefuses
      rw [hfloor] at hrefuses
      have hexecuted := executed_of_stale hfloors hrunning hextends hascending hturn hchild hsigned
        hreserved hget hrefuses
      refine ⟨by simp [overlaysOf], hs.executed, ?_, ?_, hs.state, hs.accepted, hs.sequence,
        hs.sent⟩
      rotate_left
      · intro scope floor hfloor
        exact (hs.floors scope floor hfloor).same rfl rfl (List.Subset.refl _)
      intro e he
      rcases List.mem_append.mp he with he | he
      · exact hs.stale e he
      · rw [List.mem_singleton.mp he]
        exact hs.executed hexecuted

structure Sound (agent : NodeAgent pk) (h : AgentHost pk) : Prop where
  agreement : Agreement h
  latest : ∀ desired ∈ h.accepted, desiredOrder desired ≤ h.state.order
  table : ∀ state, h.sequence.running = some state → state.Bounded ∧ state.Ascending
  floors : h.Floors agent

variable {bundle : DesiredAuthorizationBundle} {desired : DesiredState}

theorem apply_of_verified
    (hbundle : agent.verifiedBundle call h.state = .ok bundle) :
    apply agent h call = (carryOut agent call bundle h).2 := by
  rw [apply, reconcileWithBundle, hbundle]

theorem reconcileWithBundle_cases {result : Except AgentError UInt64}
    (heq : reconcileWithBundle agent call h = (result, h')) :
    ((∃ e, result = .error e) ∧ h' = h) ∨
    ∃ bundle mapped sequence, agent.verifiedBundle call h.state = .ok bundle ∧
      agent.mapOperations call 0 bundle.operations h.sequence = (mapped, sequence) ∧
      (((∃ e, mapped = .error e) ∧ (∃ e, result = .error e) ∧ h' = { h with sequence := sequence }) ∨
      ∃ operations done last, mapped = .ok operations ∧
        applyAuthorized call 0 operations (h.sending call.desired bundle sequence) = (done, last) ∧
        (((∃ e, result = .error e) ∧ h' = last) ∨
          (∃ revision, result = .ok revision) ∧ h' = { last with
            state := ⟨call.desired.clusterEpoch, call.desired.revision,
              call.desired.overlays.map (·.overlayId), call.desired.leaseExpiresUnix⟩
            accepted := last.accepted ++ [call.desired] })) := by
  unfold reconcileWithBundle at heq
  cases hbundle : agent.verifiedBundle call h.state with
  | error e =>
    rw [hbundle] at heq
    cases heq
    exact .inl ⟨⟨e, rfl⟩, rfl⟩
  | ok bundle =>
    rw [hbundle] at heq
    dsimp only at heq
    unfold carryOut at heq
    right
    rcases hmap : agent.mapOperations call 0 bundle.operations h.sequence with ⟨mapped, sequence⟩
    refine ⟨bundle, mapped, sequence, rfl, hmap, ?_⟩
    rw [hmap] at heq
    cases mapped with
    | error e =>
      cases heq
      exact .inl ⟨⟨e, rfl⟩, ⟨e, rfl⟩, rfl⟩
    | ok operations =>
      dsimp only at heq
      right
      rcases happly : applyAuthorized call 0 operations (h.sending call.desired bundle sequence) with
        ⟨done, last⟩
      refine ⟨operations, done, last, rfl, happly, ?_⟩
      rw [happly] at heq
      cases done with
      | false =>
        cases heq
        exact .inl ⟨⟨_, rfl⟩, rfl⟩
      | true =>
        dsimp only at heq
        by_cases hsaved : call.saved = true
        · rw [if_pos hsaved] at heq
          cases heq
          exact .inr ⟨⟨_, rfl⟩, rfl⟩
        · rw [if_neg hsaved] at heq
          cases heq
          exact .inl ⟨⟨_, rfl⟩, rfl⟩

theorem Sound.deliver {mapped : Except AgentError (List GrantedEnvelope)} (hs : h.Sound agent)
    (hrolls : ∀ child, call.outcome child ≠ .refused false)
    (hturn : h.InTurn (desiredVersion call.desired) (bundle.operations.map unsequenced))
    (hnodup : (overlaysOf bundle.operations).Nodup)
    (hmap : agent.mapOperations call 0 bundle.operations h.sequence = (mapped, sequence)) :
    Sound agent { h with sequence := sequence } ∧ ∀ operations done last, mapped = .ok operations →
      applyAuthorized call 0 operations (h.sending call.desired bundle sequence) = (done, last) →
      last.Sound agent ∧ last.state = h.state := by
  cases hrunning : h.sequence.running with
  | none =>
    obtain ⟨hnone, hempty⟩ := NodeAgent.mapOperations_none hrunning hmap
    have hfloors : ∀ scope floor, h.policy.revisions.get scope ≠ some floor := by
      intro scope floor hfloor
      obtain ⟨hstate, -⟩ := hs.floors scope floor hfloor
      rw [hrunning] at hstate
      cases hstate
    have hsound : ∀ sent, Sound agent { h with sequence := sequence, sent := sent } := by
      intro sent
      refine ⟨⟨hs.agreement.increasing, hs.agreement.refused⟩, hs.latest, ?_, ?_⟩
      · intro state hstate
        simp [hnone] at hstate
      · exact fun scope floor hfloor => absurd hfloor (hfloors scope floor)
    refine ⟨hsound h.sent, ?_⟩
    intro operations done last hok happly
    obtain rfl := hempty operations hok
    cases happly
    exact ⟨hsound _, rfl⟩
  | some start =>
    obtain ⟨hbounded, hascending⟩ := hs.table start hrunning
    obtain ⟨top, htop, hextends, hreserving, hmapped⟩ := NodeAgent.mapOperations_spec hrunning
      (fun _ _ => hturn.last _ _ _ hrunning) (.refl hbounded hascending) hmap
    have htable : ∀ state, sequence.running = some state → state.Bounded ∧ state.Ascending := by
      intro state hstate
      obtain rfl := Option.some.inj (htop.symm.trans hstate)
      exact ⟨hreserving.bounded, hreserving.ascending⟩
    refine ⟨⟨⟨hs.agreement.increasing, hs.agreement.refused⟩, hs.latest, htable, ?_⟩, ?_⟩
    · intro scope floor hfloor
      exact (hs.floors scope floor hfloor).mono hrunning htop hextends (List.Subset.refl _)
        (List.Subset.refl _)
    · intro operations done last hok happly
      have hsending : Sending agent h sequence (h.sending call.desired bundle sequence).sent
          bundle.operations (h.sending call.desired bundle sequence) :=
        ⟨fun _ _ => rfl, List.Subset.refl _, hs.agreement.refused, fun scope floor hfloor =>
          (hs.floors scope floor hfloor).mono hrunning htop hextends (List.subset_append_left ..)
            (List.Subset.refl _), rfl, rfl, rfl, rfl⟩
      have hdone := applyAuthorized_spec (hmapped operations hok) rfl hs.floors hrunning hextends
        hreserving.ascending htop (List.mem_append_right _ List.mem_cons_self) hturn hrolls hnodup
        hsending happly
      refine ⟨⟨⟨?_, hdone.stale⟩, ?_, ?_, hdone.floors⟩, hdone.state⟩
      · rw [hdone.accepted]
        exact hs.agreement.increasing
      · rw [hdone.accepted, hdone.state]
        exact hs.latest
      · rw [hdone.sequence]
        exact htable

theorem Sound.accept (hs : h.Sound agent) (hnewer : h.state.order < desiredOrder desired) :
    Sound agent { h with
      state := ⟨desired.clusterEpoch, desired.revision, desired.overlays.map (·.overlayId),
        desired.leaseExpiresUnix⟩
      accepted := h.accepted ++ [desired] } := by
  refine ⟨⟨?_, hs.agreement.refused⟩, ?_, hs.table, fun scope floor hfloor =>
    (hs.floors scope floor hfloor).same rfl rfl (List.Subset.refl _)⟩
  · rw [List.pairwise_append]
    refine ⟨hs.agreement.increasing, List.pairwise_singleton .., ?_⟩
    intro a ha b hb
    rw [List.mem_singleton.mp hb]
    exact (hs.latest a ha).trans_lt hnewer
  · intro a ha
    rcases List.mem_append.mp ha with ha | ha
    · exact (hs.latest a ha).trans hnewer.le
    · rw [List.mem_singleton.mp ha]
      exact le_refl _

theorem Sound.apply (hs : h.Sound agent) (hallowed : h.Allowed agent call) :
    (apply agent h call).Sound agent := by
  rw [AgentHost.apply]
  rcases heq : reconcileWithBundle agent call h with ⟨result, h'⟩
  obtain ⟨-, rfl⟩ | ⟨bundle, mapped, sequence, hbundle, hmap, hrest⟩ :=
    reconcileWithBundle_cases heq
  · exact hs
  · obtain ⟨-, hnewer, hnodup⟩ := NodeAgent.verifiedBundle_eq_ok hbundle
    obtain ⟨hreserved, hsent⟩ := hs.deliver hallowed.1 (hallowed.2 bundle hbundle) hnodup hmap
    obtain ⟨-, -, rfl⟩ | ⟨operations, done, last, hok, happly, hrest⟩ := hrest
    · exact hreserved
    · obtain ⟨hlast, hstate⟩ := hsent operations done last hok happly
      obtain ⟨-, rfl⟩ | ⟨-, rfl⟩ := hrest
      · exact hlast
      · exact hlast.accept (hstate ▸ hnewer)

structure Kept (h h' : AgentHost pk) : Prop where
  state : h'.state = h.state
  sequence : h'.sequence = h.sequence
  sent : h'.sent = h.sent

theorem deliver_kept (envelope : SignedEnvelope) (outcome : NetdOutcome) (now : UInt64)
    (h : AgentHost pk) :
    Kept h (deliver envelope outcome now h).2 := by
  unfold deliver
  split
  · exact ⟨rfl, rfl, rfl⟩
  all_goals split <;> exact ⟨rfl, rfl, rfl⟩

theorem applyAuthorized_kept {done : Bool}
    (heq : applyAuthorized call child operations h = (done, h')) : Kept h h' := by
  induction operations generalizing child h with
  | nil =>
    cases heq
    exact ⟨rfl, rfl, rfl⟩
  | cons operation operations ih =>
    unfold applyAuthorized at heq
    rcases hdeliver : deliver operation.envelope (call.outcome child) (call.helperNow child) h with
      ⟨sent, next⟩
    have hnext := deliver_kept operation.envelope (call.outcome child) (call.helperNow child) h
    rw [hdeliver] at heq hnext
    cases sent with
    | false =>
      cases heq
      exact hnext
    | true =>
      have hrest := ih heq
      exact ⟨hrest.state.trans hnext.state, hrest.sequence.trans hnext.sequence,
        hrest.sent.trans hnext.sent⟩

theorem failsSafely (agent : NodeAgent pk) (h : AgentHost pk) (call : ReconcileCall) :
    h.FailsSafely agent call := by
  intro e
  rw [AgentHost.apply]
  rcases heq : reconcileWithBundle agent call h with ⟨result, h'⟩
  rintro rfl
  obtain ⟨-, rfl⟩ | ⟨bundle, mapped, sequence, -, -, hrest⟩ := reconcileWithBundle_cases heq
  · rfl
  · obtain ⟨-, -, rfl⟩ | ⟨operations, done, last, -, happly, hrest⟩ := hrest
    · rfl
    · obtain ⟨-, rfl⟩ | ⟨⟨revision, hrevision⟩, -⟩ := hrest
      · exact (applyAuthorized_kept happly).state
      · cases hrevision

def starting (state : AgentState) (earlier : List SequenceCall) (cluster node : String)
    (key : pk.ed.VerifyingKey) : AgentHost pk :=
  fresh state (earlier.foldl SequenceHost.apply .initial) cluster node key

theorem starting_sound {state : AgentState} {earlier : List SequenceCall} {cluster node : String}
    {key : pk.ed.VerifyingKey} (hearlier : ∀ s, (starting state earlier cluster node key).sequence.running
      = some s → s.Ascending) : Sound agent (starting state earlier cluster node key) where
  agreement := ⟨.nil, by simp [starting, fresh]⟩
  latest := by simp [starting, fresh]
  table := fun s hs => ⟨SequenceHost.bounded_run earlier s (.inl hs), hearlier s hs⟩
  floors := by simp [Floors, starting, fresh, Policy.new]

/-! Any number of attempts at one desired state is in turn. -/

/-- The call is for this desired state, with these operations. -/
def Attempts (agent : NodeAgent pk) (desired : SequenceValue) (operations : List SignedEnvelope)
    (call : ReconcileCall) : Prop :=
  (∀ child, call.outcome child ≠ .refused false) ∧ desiredVersion call.desired = desired ∧
  ∀ current bundle, agent.verifiedBundle call current = .ok bundle →
    bundle.operations.map unsequenced = operations

structure Attempted (h : AgentHost pk) (desired : SequenceValue) (operations : List SignedEnvelope) :
    Prop where
  table : ∀ state earlier value, h.sequence.running = some state → state.Reserved earlier value →
    earlier = desired
  sent : ∀ entry ∈ h.sent, entry = (desired, operations)

theorem aligned_self {operations : List GrantedEnvelope} (h : (overlaysOf operations).Nodup) :
    Aligned (operations.map unsequenced) (operations.map unsequenced) := by
  intro i j a b ha hb heq
  have hoverlay : ∀ {k : Nat} {c : SignedEnvelope}, (operations.map unsequenced)[k]? = some c →
      (overlaysOf operations)[k]? = some c.request.overlayId := by
    intro k c hc
    rw [List.getElem?_map] at hc
    obtain ⟨operation, hoperation, rfl⟩ := Option.map_eq_some_iff.mp hc
    rw [overlaysOf, List.getElem?_map, hoperation]
    rfl
  have hi := hoverlay ha
  obtain rfl : i = j := (List.getElem?_inj (List.getElem?_eq_some_iff.mp hi).1 h).mp
    (by rw [hi, hoverlay hb, heq])
  exact ⟨rfl, .inl (Option.some.inj (hb.symm.trans ha))⟩

variable {value : SequenceValue} {envelopes : List SignedEnvelope}

theorem Attempted.allowed (h' : h.Attempted value envelopes)
    (hcall : Attempts agent value envelopes call) : h.Allowed agent call := by
  obtain ⟨hrolls, rfl, hoperations⟩ := hcall
  refine ⟨hrolls, ?_⟩
  intro bundle hbundle
  refine ⟨fun state earlier value hrunning hreserved => ?_, ?_⟩
  · rw [h'.table state earlier value hrunning hreserved]
  · intro sent hsent
    rw [(Prod.mk.inj (h'.sent _ hsent)).2, ← hoperations _ bundle hbundle]
    exact aligned_self (NodeAgent.verifiedBundle_eq_ok hbundle).2.2

theorem Attempted.apply (h' : h.Attempted value envelopes) (hs : h.Sound agent)
    (hcall : Attempts agent value envelopes call) : (apply agent h call).Attempted value envelopes := by
  have hallowed := h'.allowed hcall
  obtain ⟨-, rfl, hoperations⟩ := hcall
  rw [AgentHost.apply]
  rcases heq : reconcileWithBundle agent call h with ⟨result, last⟩
  obtain ⟨-, rfl⟩ | ⟨bundle, mapped, sequence, hbundle, hmap, hrest⟩ :=
    reconcileWithBundle_cases heq
  · exact h'
  have htable : ∀ state earlier value, sequence.running = some state →
      state.Reserved earlier value → earlier = desiredVersion call.desired := by
    intro state earlier value hstate hreserved
    cases hrunning : h.sequence.running with
    | none =>
      rw [(NodeAgent.mapOperations_none hrunning hmap).1] at hstate
      cases hstate
    | some start =>
      obtain ⟨hbounded, hascending⟩ := hs.table start hrunning
      obtain ⟨top, htop, -, hreserving, -⟩ := NodeAgent.mapOperations_spec hrunning
        (fun _ _ => (hallowed.2 bundle hbundle).last _ _ _ hrunning) (.refl hbounded hascending) hmap
      obtain rfl := Option.some.inj (htop.symm.trans hstate)
      rcases hreserving.own earlier value hreserved with hold | hnew
      · exact h'.table start earlier value hrunning hold
      · exact hnew
  obtain ⟨-, -, rfl⟩ | ⟨operations, done, last', -, happly, hrest⟩ := hrest
  · exact ⟨htable, h'.sent⟩
  · have hkept := applyAuthorized_kept happly
    have hlast : last'.Attempted (desiredVersion call.desired) envelopes := by
      refine ⟨hkept.sequence ▸ htable, ?_⟩
      intro entry hentry
      rw [hkept.sent] at hentry
      rcases List.mem_append.mp hentry with hentry | hentry
      · exact h'.sent entry hentry
      · rw [List.mem_singleton.mp hentry, hoperations _ bundle hbundle]
    obtain ⟨-, rfl⟩ | ⟨-, rfl⟩ := hrest
    · exact hlast
    · exact ⟨hlast.table, hlast.sent⟩

theorem along_of_attempts (hs : h.Sound agent) (h' : h.Attempted value envelopes)
    {calls : List ReconcileCall} (hcalls : ∀ call ∈ calls, Attempts agent value envelopes call) :
    Runs.Along (apply agent) (Allowed agent) h calls := by
  induction calls generalizing h with
  | nil => trivial
  | cons call calls ih =>
    have hcall := hcalls call List.mem_cons_self
    have hallowed := h'.allowed hcall
    exact ⟨hallowed, ih (hs.apply hallowed) (h'.apply hs hcall)
      fun c hc => hcalls c (List.mem_cons_of_mem _ hc)⟩

end AgentHost

/-- As long as the helper rolls back what it refuses and the agent takes desired states in their
order, with the same operations each time, agent and helper agree: accepted states are newer and
newer, and only executed operations are refused as stale. Errors never change the agent's state. -/
theorem agent_and_helper_agree (agent : NodeAgent pk) (state : AgentState)
    (earlier : List SequenceCall) (cluster node : String) (key : pk.ed.VerifyingKey)
    (calls : List ReconcileCall)
    (hearlier : ∀ s, (AgentHost.starting state earlier cluster node key).sequence.running = some s →
      s.Ascending)
    (h : Runs.Along (AgentHost.apply agent) (AgentHost.Allowed agent)
      (AgentHost.starting state earlier cluster node key) calls) :
    Runs.Throughout (AgentHost.apply agent) Agreement
      (AgentHost.starting state earlier cluster node key) calls ∧
    Runs.Along (AgentHost.apply agent) (AgentHost.FailsSafely agent)
      (AgentHost.starting state earlier cluster node key) calls := by
  have hsound := h.invariant (fun _ _ hallowed hs => hs.apply hallowed)
    (AgentHost.starting_sound hearlier)
  refine ⟨hsound.mono fun _ hs => hs.agreement, ?_⟩
  exact hsound.along (fun host call _ _ _ => AgentHost.failsSafely agent host call) h

end Packages

/-! A desired state that is sent twice. -/

def desiredSignature : FixedBytes 64 :=
  ⟨toBe 32 0xbe16a43b6803c5964f15b546f3d67cd53b0e2081665dc4aee70dede83aa52a0f
    ++ toBe 32 0x835acff3298e01830682a2adaeb06c03ecc9762fd436f1a8707aa47a9b7b0f08, by simp⟩

def signedDesired : DesiredState := { desiredRevision 1 with signature := desiredSignature.val }

def encodedDesired : Bytes :=
  [0x0a, 1, 0x63, 0x10, 1, 0x18, 1] ++ encodedEntry 0x32 ++ [0x2a, 0x40] ++ desiredSignature.val
    ++ [0x30, 100]

def sentSignature : String × FixedBytes 64 :=
  ("wlAxRDxJur5erj+Rsp396Ks0gG0VkpTkuUYqGBt4bQx0WN2WnQIlYkQhNsXY+TpUpq9DFZEtW24QP0pdY91RAg==",
    ⟨toBe 32 0xc25031443c49babe5eae3f91b29dfde8ab34806d159294e4b9462a181b786d0c
      ++ toBe 32 0x7458dd969d022562442136c5d8f93a54a6af4315912d5b6e103f4a5d63dd5102, by simp⟩)

def sentBundle (signature : String) : DesiredAuthorizationBundle :=
  { bundleRevision 1 signature with
    desiredStateDigest :=
      ⟨toBe 32 0x774e1af1011c70a9363efab889dd69798f56bf7df1729cfb891444d6e1f4ce53, by simp⟩ }

def mappedSignature : String × FixedBytes 64 :=
  ("4LMgNttZOIuAnItWqkWtGeV6GmpcLH7Ap8Tovs0az5oN/BR1Auts0fhKhyElkmlFdS3IEmIKJUgvz824YtG9DQ==",
    ⟨toBe 32 0xe0b32036db59388b809c8b56aa45ad19e57a1a6a5c2c7ec0a7c4e8becd1acf9a
      ++ toBe 32 0x0dfc147502eb6cd1f84a872125926945752dc812620a25482fcfcdb862d1bd0d, by simp⟩)

def mappedEnvelope (signature : String) : SignedEnvelope :=
  ⟨"c", "n", 0, 1, 100, bridgeRequest, signature⟩

def sentPackages : AgentPackages :=
  { boundPackages with
    ed := .recorded controllerKey [((mappedEnvelope "").json [], mappedSignature.2),
      (encodedRevision 1, desiredSignature), (bundleText (sentBundle ""), sentSignature.2)]
    base64Decode s := [(mappedSignature.1, mappedSignature.2.val),
      (sentSignature.1, sentSignature.2.val)].lookup s
    base64Encode bytes := if bytes = mappedSignature.2.val then mappedSignature.1 else ""
    readBundle bytes :=
      if bytes = bundleText (sentBundle sentSignature.1) then some (sentBundle sentSignature.1)
      else none
    bundleJson b := some (bundleText b)
    signedJson envelope := some (envelope.json [])
    encodeToVec desired := if desired.signature = [] then encodedRevision 1 else encodedDesired }

def sendingAgent : NodeAgent sentPackages := ⟨"c", controllerKey.val, [controllerKey.val], ()⟩

def sendingCall (outcome : NetdOutcome) : ReconcileCall where
  desired := signedDesired
  encodedBundle := bundleText (sentBundle sentSignature.1)
  nowUnix := 0
  stored _ := true
  outcome _ := outcome
  helperNow _ := 0
  saved := true

def firstState : AgentState := ⟨0, 0, [], 0⟩

theorem decodeAndVerify_sentBundle :
    DesiredAuthorizationBundle.decodeAndVerify sentPackages (bundleText (sentBundle sentSignature.1))
      signedDesired controllerKey 0 = .ok (sentBundle sentSignature.1) := by
  have hread : sentPackages.readBundle (bundleText (sentBundle sentSignature.1))
      = some (sentBundle sentSignature.1) := by simp [sentPackages]
  have hbase64 : sentPackages.base64Decode (sentBundle sentSignature.1).signature
      = some sentSignature.2.val := by decide +kernel
  have hverify : sentPackages.ed.verify controllerKey (bundleText (sentBundle ""))
      sentSignature.2 = true := by decide +kernel
  have hlive : ¬ (100 : Int64) ≤ 0 := by decide
  exact decodeAndVerify_of_read hread rfl rfl rfl rfl rfl hlive (by decide +kernel)
    (verifySignature_of_verify hbase64 rfl hverify) (by decide +kernel)

theorem NodeAgent.verifiedBundle_of {pk : AgentPackages} {agent : NodeAgent pk}
    {call : ReconcileCall} {current : AgentState} {bundle : DesiredAuthorizationBundle}
    {bytes : Bytes} {keys : List Bytes} {key : pk.ed.VerifyingKey}
    (hkeys : agent.controllerKeys = bytes :: keys) (hkey : readKey bytes = some key)
    (hdecode : DesiredAuthorizationBundle.decodeAndVerify pk call.encodedBundle call.desired key
      call.nowUnix = .ok bundle)
    (hsmall : ¬ maxMessageBytes < (pk.encodeToVec call.desired).length)
    (hcluster : call.desired.clusterId = agent.clusterId)
    (hlive : ¬ call.desired.leaseExpiresUnix ≤ call.nowUnix)
    (hsigned : agent.verifySignature call.desired = true)
    (hnew : isStale call.desired current = false)
    (htransition : bundle.validateTransition pk call.desired current.overlays = .ok ()) :
    agent.verifiedBundle call current = .ok bundle := by
  have hfind : (agent.controllerKeys.findSome? fun bytes =>
      (readKey bytes).bind fun key => (DesiredAuthorizationBundle.decodeAndVerify pk
        call.encodedBundle call.desired key call.nowUnix).toOption) = some bundle := by
    rw [hkeys, List.findSome?_cons, hkey, Option.bind_some, hdecode]
    rfl
  unfold verifiedBundle
  rw [hfind]
  dsimp only
  rw [if_neg hsmall, if_neg (not_not.mpr hcluster), if_neg hlive, hsigned, hnew, htransition]
  rfl

theorem NodeAgent.bundle_unique {pk : AgentPackages} {agent : NodeAgent pk} {call : ReconcileCall}
    {current : AgentState} {bundle found : DesiredAuthorizationBundle} {bytes : Bytes}
    {key : pk.ed.VerifyingKey} (hkeys : agent.controllerKeys = [bytes])
    (hkey : readKey bytes = some key)
    (hdecode : DesiredAuthorizationBundle.decodeAndVerify pk call.encodedBundle call.desired key
      call.nowUnix = .ok found)
    (h : agent.verifiedBundle call current = .ok bundle) : bundle = found := by
  have hfound := (verifiedBundle_eq_ok h).1
  rw [hkeys, List.findSome?_cons, hkey, Option.bind_some, hdecode] at hfound
  exact (Option.some.inj hfound).symm

theorem verifiedBundle_sending (outcome : NetdOutcome) :
    sendingAgent.verifiedBundle (sendingCall outcome) firstState
      = .ok (sentBundle sentSignature.1) := by
  have hkey : @NodeAgent.readKey sentPackages controllerKey.val = some controllerKey :=
    dif_pos controllerKey.length_eq
  have hsmall : ¬ maxMessageBytes < (sentPackages.encodeToVec signedDesired).length := by
    decide +kernel
  have hsigned : sendingAgent.verifySignature signedDesired = true := by decide +kernel
  have hlive : ¬ signedDesired.leaseExpiresUnix ≤ 0 := by decide
  have hnew : NodeAgent.isStale signedDesired firstState = false := by decide +kernel
  have htransition : (sentBundle sentSignature.1).validateTransition sentPackages signedDesired []
      = .ok () := by decide +kernel
  exact NodeAgent.verifiedBundle_of rfl hkey decodeAndVerify_sentBundle hsmall rfl hlive hsigned
    hnew htransition

def sendingHost : AgentHost sentPackages :=
  .starting firstState [.opening ⟨0, 0⟩ true] "c" "n" controllerKey

variable {h : AgentHost sentPackages}

theorem apply_sending (hstate : h.state = firstState)
    (outcome : NetdOutcome) : AgentHost.apply sendingAgent h (sendingCall outcome)
      = (AgentHost.carryOut sendingAgent (sendingCall outcome) (sentBundle sentSignature.1) h).2 := by
  apply AgentHost.apply_of_verified
  rw [hstate]
  exact verifiedBundle_sending outcome

theorem attempts_sending {outcome : NetdOutcome} (h : outcome ≠ .refused false) :
    AgentHost.Attempts sendingAgent ⟨1, 1⟩ ((sentBundle sentSignature.1).operations.map unsequenced)
      (sendingCall outcome) := by
  refine ⟨fun _ => h, rfl, ?_⟩
  intro current bundle hbundle
  have hkey : @NodeAgent.readKey sentPackages controllerKey.val = some controllerKey :=
    dif_pos controllerKey.length_eq
  have hkeys : sendingAgent.controllerKeys = [controllerKey.val] := rfl
  have hdecode : DesiredAuthorizationBundle.decodeAndVerify sentPackages
      (sendingCall outcome).encodedBundle (sendingCall outcome).desired controllerKey
      (sendingCall outcome).nowUnix = .ok (sentBundle sentSignature.1) :=
    decodeAndVerify_sentBundle
  rw [NodeAgent.bundle_unique hkeys hkey hdecode hbundle]

def sendingOutcomes : List NetdOutcome :=
  [.unreached, .refused true, .executed false, .executed true]

/-- The operation is lost, refused and taken back, and executed without an answer: the last attempt
is refused as stale. -/
theorem lost_answer_agrees :
    Runs.Throughout (AgentHost.apply sendingAgent) Agreement sendingHost
      (sendingOutcomes.map sendingCall) ∧
    Runs.Along (AgentHost.apply sendingAgent) (AgentHost.FailsSafely sendingAgent) sendingHost
      (sendingOutcomes.map sendingCall) := by
  have hempty : ∀ s a v, sendingHost.sequence.running = some s → ¬ s.Reserved a v := by
    rintro s a v hs ⟨child, hget⟩
    have hs' : s = ⟨⟨0, 0⟩, .empty⟩ := (Option.some.inj hs).symm
    rw [hs', OrdMap.get_empty] at hget
    cases hget
  have hearlier : ∀ s, sendingHost.sequence.running = some s → s.Ascending :=
    fun s hs a _ v _ ha => absurd ha (hempty s a v hs)
  have hcalls : ∀ call ∈ sendingOutcomes.map sendingCall, AgentHost.Attempts sendingAgent ⟨1, 1⟩
      ((sentBundle sentSignature.1).operations.map unsequenced) call := by
    simp only [sendingOutcomes, List.forall_mem_map]
    exact fun outcome ho => attempts_sending (by rintro rfl; revert ho; decide)
  have hallowed := AgentHost.along_of_attempts (AgentHost.starting_sound hearlier)
    ⟨fun s a v hs ha => absurd ha (hempty s a v hs), by simp [AgentHost.starting,
      AgentHost.fresh]⟩ hcalls
  exact agent_and_helper_agree _ _ _ _ _ _ _ hearlier hallowed

/-- The helper has validated the operation and refuses it before it is executed. The floor stays,
and the second attempt uses the same revision. -/
theorem kept_floor_refuses_retry :
    ¬ Runs.Throughout (AgentHost.apply sendingAgent) Agreement sendingHost
      [sendingCall (.refused false), sendingCall (.executed true)] := by
  intro h
  have hlast := h.2.2.head
  have hfirst := apply_sending (h := sendingHost) rfl (.refused false)
  rw [hfirst, apply_sending (by decide +kernel)] at hlast
  have hstale : mappedEnvelope mappedSignature.1 ∈ (AgentHost.carryOut sendingAgent
      (sendingCall (.executed true)) (sentBundle sentSignature.1) (AgentHost.carryOut sendingAgent
      (sendingCall (.refused false)) (sentBundle sentSignature.1) sendingHost).2).2.stale := by
    decide +kernel
  have hexecuted := hlast.refused _ hstale
  revert hexecuted
  decide +kernel

end Ferrocrate.Agent

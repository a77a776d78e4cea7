import Ferrocrate.Lib.Bytes
import Ferrocrate.Lib.Program

/-! The classifier's decision about one packet, over the tables it reads. -/
namespace Ferrocrate.Ebpf
open Lib Lib.Program

inductive Direction where
  | ingress
  | egress
deriving DecidableEq

inductive Action where
  | pass
  | drop
  | redirect
deriving DecidableEq

structure Ipv4 where
  a : UInt8
  b : UInt8
  c : UInt8
  d : UInt8
deriving DecidableEq

def Ipv4.unspecified : Ipv4 := ⟨0, 0, 0, 0⟩

def Ipv4.isLoopback (address : Ipv4) : Bool := address.a = 127

structure Mac where
  a : UInt8
  b : UInt8
  c : UInt8
  d : UInt8
  e : UInt8
  f : UInt8
deriving DecidableEq

def Mac.zero : Mac := ⟨0, 0, 0, 0, 0, 0⟩

structure Socket where
  address : Ipv4
  port : UInt16
deriving DecidableEq

structure Packet where
  protocol : UInt8
  source : Socket
  destination : Socket

structure FlowKey where
  protocol : UInt8
  source : Ipv4
  destination : Ipv4
  sourcePort : UInt16
  destinationPort : UInt16
deriving DecidableEq

def FlowKey.fromPacket (packet : Packet) : FlowKey where
  protocol := packet.protocol
  source := packet.source.address
  destination := packet.destination.address
  sourcePort := packet.source.port
  destinationPort := packet.destination.port

def u16Bytes (x : UInt16) : Bytes := toBe 2 x.toNat

def FlowKey.encode (key : FlowKey) : Bytes :=
  [key.protocol, 0, 0, 0, key.source.a, key.source.b, key.source.c, key.source.d,
    key.destination.a, key.destination.b, key.destination.c, key.destination.d] ++
    u16Bytes key.sourcePort ++ u16Bytes key.destinationPort

structure PolicyKey where
  endpoint : Ipv4
  protocol : UInt8
  direction : Direction
  port : UInt16
deriving DecidableEq

def PolicyKey.forPacket (packet : Packet) (direction : Direction) : PolicyKey where
  endpoint :=
    match direction with
    | .ingress => packet.destination.address
    | .egress => packet.source.address
  protocol := packet.protocol
  direction := direction
  port := packet.destination.port

inductive PolicyAction where
  | allow
  | deny
deriving DecidableEq

abbrev NatTarget := Socket
abbrev PortTarget := Socket

structure Endpoint where
  ifindex : UInt32
  mac : Mac
  flags : UInt8
deriving DecidableEq

def Endpoint.usable (endpoint : Endpoint) : Bool := endpoint.ifindex ≠ 0 ∧ endpoint.mac ≠ Mac.zero

structure ExternalNetwork where
  address : Ipv4
  bridgeGateway : Ipv4
  ifindex : UInt32
  loopbackIfindex : UInt32
  nextHopMac : Mac
  snatPortStart : UInt16
  snatPortEnd : UInt16
  snatRangeReserved : Bool

structure ConntrackRecord where
  key : FlowKey
  target : NatTarget
deriving DecidableEq

structure ConntrackPair where
  forward : ConntrackRecord
  reverse : ConntrackRecord
deriving DecidableEq

inductive Translation where
  | none
  | source
  | destination
  | sourceAndDestination
deriving DecidableEq

structure Decision where
  action : Action
  source : Socket
  destination : Socket
  ifindex : Option UInt32
  redirectIngress : Bool
  destinationMac : Option Mac
  translation : Translation
  reverseConntrack : Option ConntrackRecord
  installedConntrack : Option ConntrackPair
deriving DecidableEq

def Decision.pass (packet : Packet) : Decision where
  action := .pass
  source := packet.source
  destination := packet.destination
  ifindex := none
  redirectIngress := false
  destinationMac := none
  translation := .none
  reverseConntrack := none
  installedConntrack := none

inductive DecisionError where
  | policyDenied
  | endpointMissing
  | invalidTranslation
  | snatConfigInvalid
  | snatExhausted
  | conntrackInsertFailed
deriving DecidableEq

/-- The tables that user space fills, and which inserts into the conntrack map the kernel refuses
for a reason of its own (no memory left) at this packet. -/
structure Tables where
  policy : PolicyKey → Option PolicyAction
  publishedPort : UInt8 → UInt16 → Option PortTarget
  endpoint : Ipv4 → Option Endpoint
  externalNetwork : Option ExternalNetwork
  insertFails : FlowKey → Bool

abbrev Conntrack := FlowKey → Option NatTarget

def Conntrack.empty : Conntrack := fun _ => none

def Conntrack.insert (conntrack : Conntrack) (record : ConntrackRecord) : Conntrack :=
  fun key => if key = record.key then some record.target else conntrack key

def Conntrack.remove (conntrack : Conntrack) (key : FlowKey) : Conntrack :=
  fun key' => if key' = key then none else conntrack key'

inductive ConntrackReservation where
  | reserved
  | occupied
  | failed
deriving DecidableEq

variable (tables : Tables)

def reserveConntrack (record : ConntrackRecord) :
    Program DecisionError Conntrack ConntrackReservation := do
  let conntrack ← get
  if tables.insertFails record.key then
    pure .failed
  else if (conntrack record.key).isSome then
    pure .occupied
  else do
    modify fun conntrack => conntrack.insert record
    pure .reserved

def insertConntrack (record : ConntrackRecord) : Program DecisionError Conntrack Bool := do
  let reservation ← reserveConntrack tables record
  pure (reservation = .reserved)

def enforcePolicy (packet : Packet) (direction : Direction) : Except DecisionError Unit :=
  match tables.policy (PolicyKey.forPacket packet direction) with
  | some .deny => .error .policyDenied
  | some .allow => .ok ()
  | none => .ok ()

def validTarget (target : Socket) : Bool := target.address ≠ Ipv4.unspecified ∧ target.port ≠ 0

def validExternal (external : ExternalNetwork) : Bool :=
  external.address ≠ Ipv4.unspecified ∧ external.ifindex ≠ 0 ∧ external.nextHopMac ≠ Mac.zero

def snatProbeLimit : Nat := 8

def validSnatRange (rangeStart rangeEnd : UInt16) : Bool :=
  rangeStart ≠ 0 ∧ rangeStart ≤ rangeEnd ∧
    snatProbeLimit ≤ rangeEnd.toNat - rangeStart.toNat + 1

def snatCandidate (packet : Packet) (probe : Nat) (rangeStart rangeEnd : UInt16) :
    Option UInt16 :=
  if !validSnatRange rangeStart rangeEnd ∨ snatProbeLimit ≤ probe then
    none
  else
    let hash : UInt32 := (FlowKey.fromPacket packet).encode.foldl
      (fun hash byte => (hash ^^^ byte.toUInt32) * 16777619) 2166136261
    let width := rangeEnd.toNat - rangeStart.toNat + 1
    some (rangeStart + ((hash + UInt32.ofNat probe).toNat % width).toUInt16)

def conntrackPair (packet : Packet) (external : ExternalNetwork) (port : UInt16) :
    ConntrackPair where
  forward := ⟨FlowKey.fromPacket packet, ⟨external.address, port⟩⟩
  reverse :=
    { key :=
        { protocol := packet.protocol
          source := packet.destination.address
          destination := external.address
          sourcePort := packet.destination.port
          destinationPort := port }
      target := packet.source }

def installFrom (packet : Packet) (external : ExternalNetwork) :
    Nat → Program DecisionError Conntrack ConntrackPair
  | 0 => throw .snatExhausted
  | left + 1 => do
    let port ← okOr (snatCandidate packet (snatProbeLimit - (left + 1)) external.snatPortStart
      external.snatPortEnd) .snatConfigInvalid
    let pair := conntrackPair packet external port
    let reservation ← reserveConntrack tables pair.reverse
    match reservation with
    | .occupied => installFrom packet external left
    | .failed => throw .conntrackInsertFailed
    | .reserved => do
      let inserted ← insertConntrack tables pair.forward
      if inserted then
        pure pair
      else do
        modify fun conntrack => conntrack.remove pair.reverse.key
        throw .conntrackInsertFailed

def installGenericSnat (packet : Packet) (external : ExternalNetwork) :
    Program DecisionError Conntrack ConntrackPair :=
  installFrom tables packet external snatProbeLimit

def gateway : Ipv4 :=
  match tables.externalNetwork with
  | some external => external.bridgeGateway
  | none => Ipv4.unspecified

inductive Translated where
  | settled (decision : Decision)
  | routed (decision : Decision) (reverseConntrack : Bool)

def trackedIngress (packet : Packet) (target : NatTarget) : Except DecisionError Translated :=
  if !validTarget target then
    .error .invalidTranslation
  else if packet.destination = target then
    -- translated by an earlier classifier
    .ok (.settled (Decision.pass packet))
  else if (tables.endpoint packet.source.address).isSome then
    if packet.destination.address = gateway tables ∧ target.address.isLoopback then
      .ok (.routed
        { Decision.pass packet with
          source := target
          destination := { packet.destination with address := target.address }
          translation := .sourceAndDestination }
        true)
    else
      .ok (.routed { Decision.pass packet with source := target, translation := .source } true)
  else
    .ok (.routed
      { Decision.pass packet with destination := target, translation := .destination } true)

def hostLoopback (packet : Packet) : Bool :=
  packet.source.address.isLoopback ∧ packet.destination.address.isLoopback

def publishedRecord (packet : Packet) (target : PortTarget) (client : Ipv4) : ConntrackRecord where
  key :=
    { protocol := packet.protocol
      source := target.address
      destination := client
      sourcePort := target.port
      destinationPort := packet.source.port }
  target := packet.destination

def hairpin (packet : Packet) (target : PortTarget) (external : ExternalNetwork) : Decision :=
  { Decision.pass packet with
    source := { packet.source with address := external.bridgeGateway }
    destination := target
    translation := .sourceAndDestination
    reverseConntrack := some (publishedRecord packet target external.bridgeGateway) }

@[simp] theorem hairpin_destination (packet : Packet) (target : PortTarget)
    (external : ExternalNetwork) : (hairpin packet target external).destination = target := rfl

def publishedIngress (packet : Packet) (target : PortTarget) : Except DecisionError Translated :=
  if !validTarget target then
    .error .invalidTranslation
  else if hostLoopback packet then
    match tables.externalNetwork with
    | none => .error .endpointMissing
    | some external => .ok (.routed (hairpin packet target external) false)
  else
    .ok (.routed
      { Decision.pass packet with
        destination := target
        translation := .destination
        reverseConntrack := some (publishedRecord packet target packet.source.address) }
      false)

def fromEndpointToHost (packet : Packet) : Bool :=
  (tables.endpoint packet.source.address).isSome ∧
    tables.externalNetwork.any fun external =>
      packet.destination.address.isLoopback ∨ packet.destination.address = external.address

def translateIngress (conntrack : Conntrack) (packet : Packet) :
    Except DecisionError Translated :=
  match conntrack (FlowKey.fromPacket packet) with
  | some target => trackedIngress tables packet target
  | none =>
    match tables.publishedPort packet.protocol packet.destination.port with
    | some target =>
      if fromEndpointToHost tables packet then
        .ok (.settled (Decision.pass packet))
      else
        publishedIngress tables packet target
    | none => .ok (.routed (Decision.pass packet) false)

def redirectTo (decision : Decision) (ifindex : UInt32) (mac : Mac) : Decision :=
  { decision with action := .redirect, ifindex := some ifindex, destinationMac := some mac }

def routeIngress (decision : Decision) (reverseConntrack : Bool) :
    Except DecisionError Decision :=
  match tables.endpoint decision.destination.address with
  | some endpoint =>
    if endpoint.usable then
      .ok (redirectTo decision endpoint.ifindex endpoint.mac)
    else
      .error .endpointMissing
  | none =>
    if reverseConntrack then
      match tables.externalNetwork with
      | none => .error .endpointMissing
      | some external =>
        if decision.destination.address.isLoopback then
          if external.loopbackIfindex = 0 then
            .error .endpointMissing
          else
            .ok { redirectTo decision external.loopbackIfindex Mac.zero with
              redirectIngress := true }
        else if external.ifindex ≠ 0 ∧ external.nextHopMac ≠ Mac.zero then
          .ok (redirectTo decision external.ifindex external.nextHopMac)
        else
          .error .endpointMissing
    else if decision.translation ≠ .none then
      .error .endpointMissing
    else
      .ok decision

def decideIngress (conntrack : Conntrack) (packet : Packet) : Except DecisionError Decision := do
  enforcePolicy tables packet .ingress
  let translated ← translateIngress tables conntrack packet
  match translated with
  | .settled decision => pure decision
  | .routed decision reverseConntrack => routeIngress tables decision reverseConntrack

def hairpinEgress (packet : Packet) : Except DecisionError Decision :=
  if hostLoopback packet then
    match tables.publishedPort packet.protocol packet.destination.port with
    | none => .ok (Decision.pass packet)
    | some target =>
      if !validTarget target then
        .error .invalidTranslation
      else
        match tables.externalNetwork with
        | none => .error .endpointMissing
        | some external => .ok (hairpin packet target external)
  else
    .ok (Decision.pass packet)

def trackedEgress (packet : Packet) (decision : Decision) :
    Option NatTarget → Except DecisionError Decision
  | none => .ok decision
  | some target =>
    if !validTarget target then
      .error .invalidTranslation
    else if packet.destination.address = gateway tables ∧ target.address.isLoopback then
      .ok
        { decision with
          source := target
          destination := { decision.destination with address := target.address }
          translation := .sourceAndDestination }
    else
      .ok { decision with source := target, translation := .source }

def leave (packet : Packet) (decision : Decision) (target : Option NatTarget) :
    Program DecisionError Conntrack Decision := do
  let external ← okOr tables.externalNetwork .snatConfigInvalid
  rejectIf (¬(validExternal external ∧ external.snatRangeReserved ∧
    validSnatRange external.snatPortStart external.snatPortEnd)) .snatConfigInvalid
  if target.any fun target => target.address.isLoopback then do
    rejectIf (external.loopbackIfindex = 0) .snatConfigInvalid
    pure (redirectTo decision external.loopbackIfindex Mac.zero)
  else if decision.translation = .none then do
    let pair ← installGenericSnat tables packet external
    pure (redirectTo
      { decision with
        source := pair.forward.target
        translation := .source
        installedConntrack := some pair }
      external.ifindex external.nextHopMac)
  else
    pure (redirectTo decision external.ifindex external.nextHopMac)

def translateEgress (conntrack : Conntrack) (packet : Packet) : Except DecisionError Decision := do
  let decision ← hairpinEgress tables packet
  trackedEgress tables packet decision (conntrack (FlowKey.fromPacket packet))

def decideEgress (packet : Packet) : Program DecisionError Conntrack Decision := do
  ofExcept id (enforcePolicy tables packet .egress)
  let conntrack ← get
  let decision ← ofExcept id (translateEgress tables conntrack packet)
  match tables.endpoint decision.destination.address with
  | some endpoint =>
    if endpoint.usable then
      pure (redirectTo decision endpoint.ifindex endpoint.mac)
    else
      throw .endpointMissing
  | none =>
    if (tables.endpoint packet.source.address).isNone then
      pure decision
    else
      leave tables packet decision (conntrack (FlowKey.fromPacket packet))

def decideAt (direction : Direction) (packet : Packet) : Program DecisionError Conntrack Decision :=
  match direction with
  | .ingress => do
    let conntrack ← get
    ofExcept id (decideIngress tables conntrack packet)
  | .egress => decideEgress tables packet

theorem run_bind {ε σ α β : Type} (m : Program ε σ α) (f : α → Program ε σ β) (s : σ) :
    (m >>= f) s =
      match m s with
      | (.ok a, s') => f a s'
      | (.error e, s') => (.error e, s') := by
  simp only [bind, ExceptT.bind, ExceptT.mk, StateT.bind, ExceptT.bindCont]
  cases m s with
  | mk r s' => cases r <;> rfl

section Results
variable {tables} {conntrack : Conntrack} {p : Packet} {d : Decision}

theorem enforcePolicy_eq_ok {direction : Direction} :
    enforcePolicy tables p direction = .ok () ↔
      tables.policy (.forPacket p direction) ≠ some .deny := by
  unfold enforcePolicy
  split <;> simp_all

theorem decideAt_ingress : decideAt tables .ingress p conntrack =
    (decideIngress tables conntrack p, conntrack) := by
  change (ofExcept id (decideIngress tables conntrack p) : Program _ _ _) conntrack = _
  cases decideIngress tables conntrack p <;> rfl

theorem translateIngress_settled
    (h : translateIngress tables conntrack p = .ok (.settled d)) : d = Decision.pass p := by
  unfold translateIngress trackedIngress publishedIngress at h
  grind

theorem routeIngress_of_endpoint {endpoint : Endpoint} {reverse : Bool}
    (h : tables.endpoint d.destination.address = some endpoint) :
    routeIngress tables d reverse =
      if endpoint.usable then .ok (redirectTo d endpoint.ifindex endpoint.mac)
      else .error .endpointMissing := by
  simp only [routeIngress, h]

structure Routes (d d' : Decision) : Prop where
  source : d'.source = d.source
  destination : d'.destination = d.destination
  translation : d'.translation = d.translation
  reverseConntrack : d'.reverseConntrack = d.reverseConntrack
  installedConntrack : d'.installedConntrack = d.installedConntrack

theorem routes_redirectTo (d : Decision) (ifindex : UInt32) (mac : Mac) :
    Routes d (redirectTo d ifindex mac) := ⟨rfl, rfl, rfl, rfl, rfl⟩

variable {d' : Decision}

theorem routeIngress_routes {reverse : Bool}
    (h : routeIngress tables d reverse = .ok d') : Routes d d' := by
  unfold routeIngress at h
  cases hend : tables.endpoint d.destination.address with
  | some endpoint =>
    simp only [hend] at h
    split_ifs at h
    cases h
    exact routes_redirectTo ..
  | none =>
    cases reverse with
    | true =>
      cases hext : tables.externalNetwork with
      | none => simp [hend, hext] at h
      | some external =>
        simp only [hend, hext, if_true] at h
        split_ifs at h
        · cases h
          exact ⟨rfl, rfl, rfl, rfl, rfl⟩
        · cases h
          exact routes_redirectTo ..
    | false =>
      simp only [hend, Bool.false_eq_true, if_false] at h
      split_ifs at h
      cases h
      exact ⟨rfl, rfl, rfl, rfl, rfl⟩

theorem decideIngress_eq_ok (h : decideIngress tables conntrack p = .ok d) :
    tables.policy (.forPacket p .ingress) ≠ some .deny ∧
      (translateIngress tables conntrack p = .ok (.settled d) ∨
        ∃ d' reverse, translateIngress tables conntrack p = .ok (.routed d' reverse) ∧
          routeIngress tables d' reverse = .ok d) := by
  obtain ⟨_, hpolicy, h⟩ := Except.bind_eq_ok.mp h
  obtain ⟨translated, htranslate, h⟩ := Except.bind_eq_ok.mp h
  refine ⟨enforcePolicy_eq_ok.mp hpolicy, ?_⟩
  cases translated with
  | settled d' =>
    cases h
    exact .inl htranslate
  | routed d' reverse => exact .inr ⟨d', reverse, htranslate, h⟩

theorem hairpinEgress_eq_ok (h : hairpinEgress tables p = .ok d) :
    d = Decision.pass p ∧ (hostLoopback p →
        tables.publishedPort p.protocol p.destination.port = none) ∨
      ∃ target external, hostLoopback p ∧
        tables.publishedPort p.protocol p.destination.port = some target ∧
        tables.externalNetwork = some external ∧ d = hairpin p target external := by
  unfold hairpinEgress at h
  split_ifs at h with hloopback
  · cases hport : tables.publishedPort p.protocol p.destination.port with
    | none =>
      simp only [hport] at h
      cases h
      exact .inl ⟨rfl, fun _ => rfl⟩
    | some target =>
      simp only [hport] at h
      split_ifs at h
      cases hexternal : tables.externalNetwork with
      | none =>
        simp only [hexternal] at h
        cases h
      | some external =>
        simp only [hexternal] at h
        cases h
        exact .inr ⟨target, external, hloopback, rfl, rfl, rfl⟩
  · cases h
    exact .inl ⟨rfl, fun h => absurd h hloopback⟩

theorem decideEgress_run : decideEgress tables p conntrack =
    match enforcePolicy tables p .egress with
    | .error e => (.error e, conntrack)
    | .ok () =>
      match translateEgress tables conntrack p with
      | .error e => (.error e, conntrack)
      | .ok d =>
        match tables.endpoint d.destination.address with
        | some endpoint =>
          if endpoint.usable then
            (.ok (redirectTo d endpoint.ifindex endpoint.mac), conntrack)
          else
            (.error .endpointMissing, conntrack)
        | none =>
          if (tables.endpoint p.source.address).isNone then
            (.ok d, conntrack)
          else
            leave tables p d (conntrack (.fromPacket p)) conntrack := by
  unfold decideEgress
  cases hpolicy : enforcePolicy tables p .egress with
  | error e => rfl
  | ok _ =>
    change ((ofExcept id (translateEgress tables conntrack p) : Program _ _ _) >>= _) conntrack = _
    cases htranslate : translateEgress tables conntrack p with
    | error e => rfl
    | ok d =>
      simp only [Program.ofExcept, pure_bind]
      cases tables.endpoint d.destination.address with
      | some endpoint =>
        by_cases husable : endpoint.usable
        · simp only [husable, if_true]
          rfl
        · simp only [husable]
          rfl
      | none =>
        by_cases hnone : (tables.endpoint p.source.address).isNone
        · simp only [hnone, if_true]
          rfl
        · simp only [hnone]
          rfl

theorem reserveConntrack_run (record : ConntrackRecord) :
    reserveConntrack tables record conntrack =
      if tables.insertFails record.key then (.ok .failed, conntrack)
      else if (conntrack record.key).isSome then (.ok .occupied, conntrack)
      else (.ok .reserved, conntrack.insert record) := by
  change (if tables.insertFails record.key then pure .failed
    else if (conntrack record.key).isSome then pure .occupied
    else do
      modify fun conntrack => conntrack.insert record
      pure .reserved : Program DecisionError Conntrack ConntrackReservation) conntrack = _
  split_ifs
  · rfl
  · rfl
  · rfl

theorem installFrom_succ (external : ExternalNetwork) (left : Nat) :
    installFrom tables p external (left + 1) conntrack =
      match snatCandidate p (snatProbeLimit - (left + 1)) external.snatPortStart
        external.snatPortEnd with
      | none => (.error .snatConfigInvalid, conntrack)
      | some port =>
        let pair := conntrackPair p external port
        if tables.insertFails pair.reverse.key then
          (.error .conntrackInsertFailed, conntrack)
        else if (conntrack pair.reverse.key).isSome then
          installFrom tables p external left conntrack
        else if tables.insertFails pair.forward.key ∨
            (conntrack.insert pair.reverse pair.forward.key).isSome then
          (.error .conntrackInsertFailed, (conntrack.insert pair.reverse).remove pair.reverse.key)
        else
          (.ok pair, (conntrack.insert pair.reverse).insert pair.forward) := by
  rw [installFrom]
  cases snatCandidate p (snatProbeLimit - (left + 1)) external.snatPortStart
    external.snatPortEnd with
  | none => rfl
  | some port =>
    simp only [okOr, pure_bind]
    rw [run_bind, reserveConntrack_run]
    by_cases hfails : tables.insertFails (conntrackPair p external port).reverse.key
    · simp only [hfails, if_true]
      rfl
    by_cases htaken : (conntrack (conntrackPair p external port).reverse.key).isSome
    · simp only [hfails, htaken, if_true]
      rfl
    simp only [hfails, htaken, insertConntrack, bind_assoc, pure_bind]
    simp only [Bool.false_eq_true, if_false]
    rw [run_bind, reserveConntrack_run]
    by_cases hfails' : tables.insertFails (conntrackPair p external port).forward.key
    · simp only [hfails', if_true, true_or]
      rfl
    by_cases htaken' : (conntrack.insert (conntrackPair p external port).reverse
        (conntrackPair p external port).forward.key).isSome
    · simp only [hfails', htaken', if_true, or_true]
      rfl
    simp only [hfails', htaken', or_self, Bool.false_eq_true, if_false]
    rfl

def snatDecision (d : Decision) (external : ExternalNetwork) (pair : ConntrackPair) : Decision :=
  redirectTo
    { d with source := pair.forward.target, translation := .source, installedConntrack := some pair }
    external.ifindex external.nextHopMac

def snatReady (external : ExternalNetwork) : Prop :=
  validExternal external ∧ external.snatRangeReserved ∧
    validSnatRange external.snatPortStart external.snatPortEnd

instance (external : ExternalNetwork) : Decidable (snatReady external) :=
  inferInstanceAs (Decidable (_ ∧ _ ∧ _))

variable {target : Option NatTarget}

theorem leave_run : leave tables p d target conntrack =
    match tables.externalNetwork with
    | none => (.error .snatConfigInvalid, conntrack)
    | some external =>
      if ¬snatReady external then
        (.error .snatConfigInvalid, conntrack)
      else if target.any fun target => target.address.isLoopback then
        if external.loopbackIfindex = 0 then
          (.error .snatConfigInvalid, conntrack)
        else
          (.ok (redirectTo d external.loopbackIfindex Mac.zero), conntrack)
      else if d.translation = .none then
        match installGenericSnat tables p external conntrack with
        | (.ok pair, conntrack') => (.ok (snatDecision d external pair), conntrack')
        | (.error e, conntrack') => (.error e, conntrack')
      else
        (.ok (redirectTo d external.ifindex external.nextHopMac), conntrack) := by
  unfold leave
  cases tables.externalNetwork with
  | none => rfl
  | some external =>
    simp only [okOr, pure_bind]
    by_cases hready : snatReady external
    · have hreject := not_not.mpr hready
      unfold snatReady at hreject
      simp only [hready, hreject, rejectIf, if_false, pure_bind, not_true_eq_false]
      by_cases hloop : target.any fun target => target.address.isLoopback
      · by_cases hindex : external.loopbackIfindex = 0
        · simp only [hloop, hindex, if_true]
          rfl
        · simp only [hloop, hindex, if_true, if_false]
          rfl
      · by_cases htranslation : d.translation = .none
        · simp only [hloop, htranslation, if_true]
          rw [if_neg (by simp), run_bind]
          cases installGenericSnat tables p external conntrack with
          | mk r conntrack' => cases r <;> rfl
        · simp only [hloop, htranslation, if_false]
          rfl
    · have hreject := hready
      unfold snatReady at hreject
      simp only [hready, hreject, rejectIf, if_true, not_false_eq_true]
      rfl

variable {conntrack' : Conntrack}

theorem leave_eq_ok
    (h : leave tables p d target conntrack = (.ok d', conntrack')) :
    ∃ external, tables.externalNetwork = some external ∧ snatReady external ∧
      (external.loopbackIfindex ≠ 0 ∧ d' = redirectTo d external.loopbackIfindex Mac.zero ∧
          conntrack' = conntrack ∨
        (d.translation = .none ∧ ∃ pair,
          installGenericSnat tables p external conntrack = (.ok pair, conntrack') ∧
          d' = snatDecision d external pair) ∨
        d.translation ≠ .none ∧ d' = redirectTo d external.ifindex external.nextHopMac ∧
          conntrack' = conntrack) := by
  rw [leave_run] at h
  cases hext : tables.externalNetwork with
  | none =>
    rw [hext] at h
    cases h
  | some external =>
    simp only [hext] at h
    split_ifs at h with hready hloop hindex htranslation
    · cases h
    · cases h
      exact ⟨external, rfl, hready, .inl ⟨hindex, rfl, rfl⟩⟩
    · cases hinstall : installGenericSnat tables p external conntrack with
      | mk r conntrack₁ =>
        rw [hinstall] at h
        cases r with
        | error e => cases h
        | ok pair =>
          cases h
          exact ⟨external, rfl, hready, .inr (.inl ⟨htranslation, pair, hinstall, rfl⟩)⟩
    · cases h
      exact ⟨external, rfl, hready, .inr (.inr ⟨htranslation, rfl, rfl⟩)⟩
    · cases h

theorem decideEgress_eq_ok
    (h : decideEgress tables p conntrack = (.ok d, conntrack')) :
    tables.policy (.forPacket p .egress) ≠ some .deny ∧
      ∃ d', translateEgress tables conntrack p = .ok d' ∧
        ((∃ endpoint, tables.endpoint d'.destination.address = some endpoint ∧ endpoint.usable ∧
            d = redirectTo d' endpoint.ifindex endpoint.mac ∧ conntrack' = conntrack) ∨
          tables.endpoint d'.destination.address = none ∧
            (tables.endpoint p.source.address = none ∧ d = d' ∧ conntrack' = conntrack ∨
              (tables.endpoint p.source.address).isSome ∧
                leave tables p d' (conntrack (.fromPacket p)) conntrack = (.ok d, conntrack'))) := by
  rw [decideEgress_run] at h
  cases hpolicy : enforcePolicy tables p .egress with
  | error e =>
    rw [hpolicy] at h
    cases h
  | ok _ =>
    refine ⟨enforcePolicy_eq_ok.mp hpolicy, ?_⟩
    cases htranslate : translateEgress tables conntrack p with
    | error e =>
      rw [hpolicy, htranslate] at h
      cases h
    | ok d' =>
      refine ⟨d', rfl, ?_⟩
      simp only [hpolicy, htranslate] at h
      cases hend : tables.endpoint d'.destination.address with
      | some endpoint =>
        simp only [hend] at h
        split_ifs at h with husable
        · cases h
          exact .inl ⟨endpoint, rfl, husable, rfl, rfl⟩
        · cases h
      | none =>
        simp only [hend] at h
        split_ifs at h with hnone
        · cases h
          exact .inr ⟨rfl, .inl ⟨by simpa using hnone, rfl, rfl⟩⟩
        · exact .inr ⟨rfl, .inr ⟨by simpa [Option.isSome_iff_ne_none] using hnone, h⟩⟩

theorem leave_destination
    (h : leave tables p d target conntrack = (.ok d', conntrack')) :
    d'.destination = d.destination := by
  obtain ⟨external, -, -, ⟨-, rfl, -⟩ | ⟨-, pair, -, rfl⟩ | ⟨-, rfl, -⟩⟩ := leave_eq_ok h
  · rfl
  · rfl
  · rfl

end Results

end Ferrocrate.Ebpf

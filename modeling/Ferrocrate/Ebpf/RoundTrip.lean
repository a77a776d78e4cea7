import Ferrocrate.Ebpf.Datapath
import Mathlib.Tactic.Common

/-! Requests to published ports and the replies to them. -/
namespace Ferrocrate.Ebpf
open Lib Lib.Program

variable {tables : Tables} {p : Packet} {d : Decision} {record : ConntrackRecord}

def clientAddress (tables : Tables) (p : Packet) : Ipv4 :=
  if hostLoopback p then gateway tables else p.source.address

structure Publishes (tables : Tables) (p : Packet) (d : Decision) (target : PortTarget) : Prop where
  source : d.source = ⟨clientAddress tables p, p.source.port⟩
  destination : d.destination = target
  record : d.reverseConntrack = some (publishedRecord p target (clientAddress tables p))

variable {target : PortTarget}

theorem publishes_hairpin {external : ExternalNetwork}
    (hloopback : hostLoopback p) (hexternal : tables.externalNetwork = some external) :
    Publishes tables p (hairpin p target external) target := by
  have hclient : clientAddress tables p = external.bridgeGateway := by
    simp [clientAddress, hloopback, gateway, hexternal]
  exact ⟨by rw [hclient]; rfl, rfl, by rw [hclient]; rfl⟩

theorem Publishes.routes {d' : Decision} (h : Publishes tables p d target)
    (hr : Routes d d') : Publishes tables p d' target :=
  ⟨hr.source.trans h.source, hr.destination.trans h.destination,
    hr.reverseConntrack.trans h.record⟩

theorem translateIngress_publishes {conntrack : Conntrack} {reverse : Bool}
    (h : translateIngress tables conntrack p = .ok (.routed d reverse))
    (hrecord : d.reverseConntrack = some record) : ∃ target, Publishes tables p d target := by
  unfold translateIngress at h
  split at h
  · unfold trackedIngress at h
    split_ifs at h
    all_goals cases h
    all_goals cases hrecord
  · split at h
    · rename_i target htarget
      unfold publishedIngress at h
      split_ifs at h with hhost hvalid hloopback
      · cases h
      · split at h
        · cases h
        · rename_i external hexternal
          cases h
          exact ⟨target, publishes_hairpin hloopback hexternal⟩
      · cases h
        have hclient : clientAddress tables p = p.source.address := by
          simp [clientAddress, hloopback]
        exact ⟨target, by rw [hclient]; rfl, rfl, by rw [hclient]⟩
    · cases h
      cases hrecord

theorem hairpinEgress_publishes (h : hairpinEgress tables p = .ok d)
    (hrecord : d.reverseConntrack = some record) : ∃ target, Publishes tables p d target := by
  obtain ⟨rfl, -⟩ | ⟨target, external, hloopback, -, hexternal, rfl⟩ := hairpinEgress_eq_ok h
  · cases hrecord
  · exact ⟨target, publishes_hairpin hloopback hexternal⟩

theorem decideAt_publishes {direction : Direction}
    (h : (decideAt tables direction p).result Conntrack.empty = .ok d)
    (hrecord : d.reverseConntrack = some record)
    (htarget : (tables.endpoint d.destination.address).isSome) :
    ∃ target, Publishes tables p d target := by
  cases direction with
  | ingress =>
    rw [result, decideAt_ingress] at h
    obtain ⟨-, hsettled | ⟨d', reverse, htranslate, hroute⟩⟩ := decideIngress_eq_ok h
    · rw [translateIngress_settled hsettled] at hrecord
      cases hrecord
    · have hroutes := routeIngress_routes hroute
      obtain ⟨target, hpub⟩ := translateIngress_publishes htranslate
        (hroutes.reverseConntrack.symm.trans hrecord)
      exact ⟨target, hpub.routes hroutes⟩
  | egress =>
    have hrun : decideEgress tables p Conntrack.empty =
        (.ok d, (decideEgress tables p Conntrack.empty).2) := Prod.ext h rfl
    obtain ⟨-, d', htranslate, ⟨endpoint, -, -, rfl, -⟩ | ⟨hnone, hroute⟩⟩ :=
      decideEgress_eq_ok hrun
    · obtain ⟨d₁, hpin, htracked⟩ := Except.bind_eq_ok.mp htranslate
      cases htracked
      obtain ⟨target, hpub⟩ := hairpinEgress_publishes hpin hrecord
      exact ⟨target, hpub.routes (routes_redirectTo ..)⟩
    · have hdestination : d.destination = d'.destination := by
        obtain ⟨-, rfl, -⟩ | ⟨-, hleave⟩ := hroute
        · rfl
        · exact leave_destination hleave
      rw [hdestination, hnone] at htarget
      cases htarget

def replyTo (p : Packet) (d : Decision) : Packet := ⟨p.protocol, d.destination, d.source⟩

/-- The reply comes back to the client's socket, from the socket that the client asked. -/
def RoundTrips (tables : Tables) (p : Packet) (d : Decision) (record : ConntrackRecord) : Prop :=
  ∃ r, decideIngress tables (Conntrack.empty.insert record) (replyTo p d) = .ok r ∧
    r.action = .redirect ∧ r.source = p.destination ∧ r.destination = p.source

def redirectable (tables : Tables) (address : Ipv4) : Bool :=
  match tables.endpoint address with
  | some endpoint => endpoint.usable
  | none =>
    match tables.externalNetwork with
    | none => false
    | some external =>
      if address.isLoopback then external.loopbackIfindex ≠ 0
      else external.ifindex ≠ 0 ∧ external.nextHopMac ≠ Mac.zero

theorem routeIngress_tracked_iff {d : Decision} :
    (∃ r, routeIngress tables d true = .ok r ∧ r.action = .redirect ∧ r.source = d.source ∧
      r.destination = d.destination) ↔ redirectable tables d.destination.address := by
  unfold routeIngress redirectable
  cases tables.endpoint d.destination.address with
  | some endpoint => by_cases h : endpoint.usable <;> simp [h, redirectTo]
  | none =>
    cases tables.externalNetwork with
    | none => simp
    | some external =>
      by_cases hloopback : d.destination.address.isLoopback
      · by_cases hindex : external.loopbackIfindex = 0 <;> simp [hloopback, hindex, redirectTo]
      · by_cases hready : external.ifindex ≠ 0 ∧ external.nextHopMac ≠ Mac.zero <;>
          simp [hloopback, hready, redirectTo]

def Returns (tables : Tables) (p : Packet) : Prop :=
  validTarget p.destination ∧ redirectable tables p.source.address ∧
    if hostLoopback p then
      p.source.address = p.destination.address ∧
        ¬(gateway tables = p.destination.address ∧ p.source.port = p.destination.port)
    else
      p.source ≠ p.destination ∧
        ¬(p.source.address = gateway tables ∧ p.destination.address.isLoopback)

theorem translateIngress_reply (h : Publishes tables p d target)
    (hrecord : d.reverseConntrack = some record) :
    translateIngress tables (Conntrack.empty.insert record) (replyTo p d) =
      trackedIngress tables (replyTo p d) p.destination := by
  have hkey : record = publishedRecord p target (clientAddress tables p) :=
    Option.some.inj (hrecord.symm.trans h.record)
  have hflow : FlowKey.fromPacket (replyTo p d) = record.key := by
    simp [hkey, publishedRecord, FlowKey.fromPacket, replyTo, h.source, h.destination]
  have hhit : Conntrack.empty.insert record (.fromPacket (replyTo p d)) = some p.destination := by
    rw [hflow, Conntrack.insert, if_pos rfl, hkey]
    rfl
  simp only [translateIngress, hhit]

def replyDecision (tables : Tables) (p : Packet) (d : Decision) : Decision :=
  if d.source.address = gateway tables ∧ p.destination.address.isLoopback then
    { Decision.pass (replyTo p d) with
      source := p.destination
      destination := ⟨p.destination.address, d.source.port⟩
      translation := .sourceAndDestination }
  else
    { Decision.pass (replyTo p d) with source := p.destination, translation := .source }

theorem roundTrips_iff (h : Publishes tables p d target)
    (hrecord : d.reverseConntrack = some record)
    (htarget : (tables.endpoint d.destination.address).isSome)
    (hpolicy : tables.policy (.forPacket (replyTo p d) .ingress) ≠ some .deny) :
    RoundTrips tables p d record ↔
      validTarget p.destination ∧ d.source ≠ p.destination ∧
        redirectable tables p.source.address ∧
        (replyDecision tables p d).destination = p.source := by
  have hsource : (replyDecision tables p d).source = p.destination := by
    unfold replyDecision
    split_ifs
    · rfl
    · rfl
  have htracked : trackedIngress tables (replyTo p d) p.destination =
      if !validTarget p.destination then .error .invalidTranslation
      else if d.source = p.destination then .ok (.settled (Decision.pass (replyTo p d)))
      else .ok (.routed (replyDecision tables p d) true) := by
    have hend : (tables.endpoint (replyTo p d).source.address).isSome := htarget
    simp only [trackedIngress, hend, if_true, replyDecision]
    split_ifs
    all_goals first | rfl | contradiction
  have hreply := translateIngress_reply h hrecord
  rw [htracked] at hreply
  constructor
  · rintro ⟨r, hr, haction, hrsource, hrdestination⟩
    obtain ⟨-, hsettled | ⟨d', reverse, htranslate, hroute⟩⟩ := decideIngress_eq_ok hr
    · rw [translateIngress_settled hsettled] at haction
      cases haction
    · rw [hreply] at htranslate
      split_ifs at htranslate with hvalid hne
      · cases htranslate
      · cases htranslate
        have hroutes := routeIngress_routes hroute
        have hback : (replyDecision tables p d).destination = p.source :=
          hroutes.destination.symm.trans hrdestination
        refine ⟨by simpa using hvalid, hne, ?_, hback⟩
        rw [← hback]
        exact routeIngress_tracked_iff.mp
          ⟨r, hroute, haction, hroutes.source, hroutes.destination⟩
  · rintro ⟨hvalid, hne, hredirectable, hback⟩
    rw [if_neg (by simp [hvalid]), if_neg hne] at hreply
    rw [← hback] at hredirectable
    obtain ⟨r, hroute, haction, hrsource, hrdestination⟩ :=
      routeIngress_tracked_iff.mpr hredirectable
    refine ⟨r, ?_, haction, hrsource.trans hsource, hrdestination.trans hback⟩
    rw [← enforcePolicy_eq_ok] at hpolicy
    simp only [decideIngress, hpolicy, hreply, bind, Except.bind]
    exact hroute

/-- The reply to a request to a published port comes back to the client exactly when the socket
that the client asked identifies both ends of the connection. -/
theorem published_reply_round_trips_iff (tables : Tables) (direction : Direction) (p : Packet)
    (d : Decision) (record : ConntrackRecord)
    (h : (decideAt tables direction p).result Conntrack.empty = .ok d)
    (hrecord : d.reverseConntrack = some record)
    (htarget : (tables.endpoint d.destination.address).isSome)
    (hpolicy : tables.policy (.forPacket (replyTo p d) .ingress) ≠ some .deny) :
    RoundTrips tables p d record ↔ Returns tables p := by
  obtain ⟨target, hpub⟩ := decideAt_publishes h hrecord htarget
  rw [roundTrips_iff hpub hrecord htarget hpolicy, Returns, hpub.source]
  obtain ⟨protocol, ⟨source, sourcePort⟩, ⟨destination, destinationPort⟩⟩ := p
  by_cases hloopback : hostLoopback ⟨protocol, ⟨source, sourcePort⟩, ⟨destination, destinationPort⟩⟩
  · have hdst : destination.isLoopback := by
      simp only [hostLoopback, decide_eq_true_eq] at hloopback
      exact hloopback.2
    simp only [replyDecision, hpub.source, clientAddress, hloopback, hdst, if_true, Socket.mk.injEq,
      and_self, and_true, ne_eq]
    constructor
    · rintro ⟨hvalid, hne, hredirectable, hback⟩
      exact ⟨hvalid, hredirectable, hback.symm, hne⟩
    · rintro ⟨hvalid, hredirectable, hback, hne⟩
      exact ⟨hvalid, hne, hredirectable, hback.symm⟩
  · have hclient : d.source = ⟨source, sourcePort⟩ := by
      simp [hpub.source, clientAddress, hloopback]
    simp only [replyDecision, hclient, clientAddress, hloopback, Bool.false_eq_true, if_false,
      ne_eq]
    by_cases hhome : source = gateway tables ∧ destination.isLoopback
    · have hapart : destination ≠ source := by
        rintro rfl
        exact hloopback (by simp [hostLoopback, hhome.2])
      rw [if_pos hhome]
      constructor
      · rintro ⟨-, -, -, hback⟩
        exact absurd (congrArg Socket.address hback) hapart
      · rintro ⟨-, -, -, hnot⟩
        exact absurd hhome hnot
    · rw [if_neg hhome]
      constructor
      · rintro ⟨hvalid, hne, hredirectable, -⟩
        exact ⟨hvalid, hredirectable, hne, hhome⟩
      · rintro ⟨hvalid, hredirectable, hne, -⟩
        exact ⟨hvalid, hne, hredirectable, hclient⟩

def bridgeNetwork : ExternalNetwork where
  address := ⟨203, 0, 113, 1⟩
  bridgeGateway := ⟨10, 1, 0, 1⟩
  ifindex := 2
  loopbackIfindex := 1
  nextHopMac := ⟨2, 0, 0, 0, 0, 3⟩
  snatPortStart := 50000
  snatPortEnd := 50031
  snatRangeReserved := true

def publication : Tables where
  policy := fun _ => none
  publishedPort := fun protocol port =>
    if protocol = 6 ∧ port = 8080 then some ⟨⟨10, 1, 0, 2⟩, 80⟩ else none
  endpoint := fun address =>
    if address = ⟨10, 1, 0, 2⟩ then some ⟨7, ⟨2, 0, 0, 0, 0, 9⟩, 0⟩ else none
  externalNetwork := some bridgeNetwork
  insertFails := fun _ => false

def loopbackRequest (asked : Ipv4) : Packet :=
  ⟨6, ⟨⟨127, 0, 0, 1⟩, 40000⟩, ⟨asked, 8080⟩⟩

def loopbackDecision (asked : Ipv4) : Decision :=
  redirectTo (hairpin (loopbackRequest asked) ⟨⟨10, 1, 0, 2⟩, 80⟩ bridgeNetwork) 7 ⟨2, 0, 0, 0, 0, 9⟩

theorem loopback_reply_round_trips :
    RoundTrips publication (loopbackRequest ⟨127, 0, 0, 1⟩) (loopbackDecision ⟨127, 0, 0, 1⟩)
      (publishedRecord (loopbackRequest ⟨127, 0, 0, 1⟩) ⟨⟨10, 1, 0, 2⟩, 80⟩ ⟨10, 1, 0, 1⟩) :=
  (published_reply_round_trips_iff publication .egress (loopbackRequest ⟨127, 0, 0, 1⟩)
    (loopbackDecision ⟨127, 0, 0, 1⟩) _ (by decide +kernel) (by decide) (by decide)
    (by decide)).mpr (by unfold Returns; decide)

/-- A client at 127.0.0.1 that asks 127.0.0.2: the reply goes to 127.0.0.2, not to the client. -/
theorem loopback_reply_to_other_address :
    (decideAt publication .egress (loopbackRequest ⟨127, 0, 0, 2⟩)).result Conntrack.empty =
        .ok (loopbackDecision ⟨127, 0, 0, 2⟩) ∧
      ¬RoundTrips publication (loopbackRequest ⟨127, 0, 0, 2⟩) (loopbackDecision ⟨127, 0, 0, 2⟩)
        (publishedRecord (loopbackRequest ⟨127, 0, 0, 2⟩) ⟨⟨10, 1, 0, 2⟩, 80⟩ ⟨10, 1, 0, 1⟩) := by
  refine ⟨by decide +kernel, ?_⟩
  rintro ⟨r, hr, -, -, hdestination⟩
  have hreply : (decideIngress publication
      (Conntrack.empty.insert (publishedRecord (loopbackRequest ⟨127, 0, 0, 2⟩)
        ⟨⟨10, 1, 0, 2⟩, 80⟩ ⟨10, 1, 0, 1⟩))
      (replyTo (loopbackRequest ⟨127, 0, 0, 2⟩) (loopbackDecision ⟨127, 0, 0, 2⟩))).toOption.map
        Decision.destination = some ⟨⟨127, 0, 0, 2⟩, 40000⟩ := by decide +kernel
  rw [hr] at hreply
  simp only [Except.toOption, Option.map_some, Option.some.injEq, hdestination] at hreply
  cases hreply

end Ferrocrate.Ebpf

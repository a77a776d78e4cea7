import Ferrocrate.Ebpf.Datapath
import Mathlib.Tactic.Common

/-! Which socket the tables send a packet to, and when no ingress rule denies it. -/
namespace Ferrocrate.Ebpf
open Lib Lib.Program

inductive Hairpins (tables : Tables) (p : Packet) : Socket → Prop
  | away {t} : hostLoopback p → tables.publishedPort p.protocol p.destination.port = some t →
      validTarget t → tables.externalNetwork.isSome → Hairpins tables p t
  | kept : ¬(hostLoopback p ∧ (tables.publishedPort p.protocol p.destination.port).isSome) →
      Hairpins tables p p.destination

/-- The tables send a packet seen at a hook to a socket: on ingress by no entry, by a published
port or by a conntrack record, on egress after the hairpin of loopback requests. -/
inductive Leads (tables : Tables) (conntrack : Conntrack) (p : Packet) : Direction → Socket → Prop
  | asSent : conntrack (.fromPacket p) = none →
      tables.publishedPort p.protocol p.destination.port = none →
      Leads tables conntrack p .ingress p.destination
  | published {t} : conntrack (.fromPacket p) = none →
      tables.publishedPort p.protocol p.destination.port = some t → validTarget t →
      ¬fromEndpointToHost tables p → (hostLoopback p → tables.externalNetwork.isSome) →
      Leads tables conntrack p .ingress t
  | reply {t} : conntrack (.fromPacket p) = some t → validTarget t → p.destination ≠ t →
      tables.endpoint p.source.address = none → Leads tables conntrack p .ingress t
  | response {t} : conntrack (.fromPacket p) = some t → validTarget t → p.destination ≠ t →
      (tables.endpoint p.source.address).isSome →
      ¬(p.destination.address = gateway tables ∧ t.address.isLoopback) →
      Leads tables conntrack p .ingress p.destination
  | responseHome {t} : conntrack (.fromPacket p) = some t → validTarget t → p.destination ≠ t →
      (tables.endpoint p.source.address).isSome →
      p.destination.address = gateway tables → t.address.isLoopback →
      Leads tables conntrack p .ingress ⟨t.address, p.destination.port⟩
  | untracked {s} : conntrack (.fromPacket p) = none → Hairpins tables p s →
      Leads tables conntrack p .egress s
  | tracked {s t} : conntrack (.fromPacket p) = some t → validTarget t → Hairpins tables p s →
      ¬(p.destination.address = gateway tables ∧ t.address.isLoopback) →
      Leads tables conntrack p .egress s
  | trackedHome {s t} : conntrack (.fromPacket p) = some t → validTarget t → Hairpins tables p s →
      p.destination.address = gateway tables → t.address.isLoopback →
      Leads tables conntrack p .egress ⟨t.address, s.port⟩

variable {tables : Tables} {conntrack : Conntrack} {p : Packet} {d : Decision} {s : Socket}

theorem translateIngress_leads {reverse : Bool}
    (h : translateIngress tables conntrack p = .ok (.routed d reverse)) :
    Leads tables conntrack p .ingress d.destination := by
  unfold translateIngress at h
  split at h
  · rename_i t ht
    unfold trackedIngress at h
    split_ifs at h with hvalid hdst hsource hhome
    · cases h
    · cases h
      exact .responseHome ht (by simpa using hvalid) hdst hsource hhome.1 hhome.2
    · cases h
      exact .response ht (by simpa using hvalid) hdst hsource hhome
    · cases h
      exact .reply ht (by simpa using hvalid) hdst (by simpa using hsource)
  · rename_i hnone
    split at h
    · rename_i t ht
      unfold publishedIngress at h
      split_ifs at h with hhost hvalid hloop
      · cases h
      · split at h
        · cases h
        · rename_i external hexternal
          cases h
          rw [hairpin_destination]
          exact .published hnone ht (by simpa using hvalid) hhost (by simp [hexternal])
      · cases h
        exact .published hnone ht (by simpa using hvalid) hhost (fun h => absurd h hloop)
    · cases h
      exact .asSent hnone ‹_›

theorem translateIngress_of_leads (h : Leads tables conntrack p .ingress s) :
    ∃ d reverse, translateIngress tables conntrack p = .ok (.routed d reverse) ∧
      d.destination = s := by
  unfold translateIngress
  cases h with
  | asSent hnone hport => simp [hnone, hport, Decision.pass]
  | published hnone hport hvalid hhost hloop =>
    cases hh : hostLoopback p with
    | true =>
      obtain ⟨external, hexternal⟩ := Option.isSome_iff_exists.mp (hloop hh)
      simp [hnone, hport, hhost, publishedIngress, hvalid, hh, hexternal, hairpin]
    | false => simp [hnone, hport, hhost, publishedIngress, hvalid, hh]
  | reply ht hvalid hdst hsource => simp [ht, trackedIngress, hvalid, hdst, hsource]
  | response ht hvalid hdst hsource hhome =>
    simp [ht, trackedIngress, hvalid, hdst, hsource, hhome, Decision.pass]
  | responseHome ht hvalid hdst hsource hgateway hloop =>
    simp [ht, trackedIngress, hvalid, hdst, hsource, hgateway, hloop]

theorem hairpinEgress_hairpins (h : hairpinEgress tables p = .ok d) :
    Hairpins tables p d.destination := by
  unfold hairpinEgress at h
  split_ifs at h with hloop
  · split at h
    · cases h
      exact .kept (by simp_all)
    · rename_i t ht
      split_ifs at h with hvalid
      split at h
      · cases h
      · rename_i external hexternal
        cases h
        rw [hairpin_destination]
        exact .away hloop ht (by simpa using hvalid) (by simp [hexternal])
  · cases h
    exact .kept (by simp [hloop])

theorem hairpinEgress_of_hairpins (h : Hairpins tables p s) :
    ∃ d, hairpinEgress tables p = .ok d ∧ d.destination = s := by
  unfold hairpinEgress
  cases h with
  | away hloop ht hvalid hexternal =>
    obtain ⟨external, hexternal⟩ := Option.isSome_iff_exists.mp hexternal
    simp [hloop, ht, hvalid, hexternal, hairpin]
  | kept hkept =>
    by_cases hloop : hostLoopback p
    · have hport : tables.publishedPort p.protocol p.destination.port = none := by
        simpa [hloop] using hkept
      simp [hloop, hport, Decision.pass]
    · simp [hloop, Decision.pass]

theorem translateEgress_leads (h : translateEgress tables conntrack p = .ok d) :
    Leads tables conntrack p .egress d.destination := by
  obtain ⟨d₁, h₁, h⟩ := Except.bind_eq_ok.mp h
  have hpin := hairpinEgress_hairpins h₁
  cases ht : conntrack (.fromPacket p) with
  | none =>
    rw [ht] at h
    cases h
    exact .untracked ht hpin
  | some t =>
    rw [ht, trackedEgress] at h
    split_ifs at h with hvalid hhome
    · cases h
      exact .trackedHome ht (by simpa using hvalid) hpin hhome.1 hhome.2
    · cases h
      exact .tracked ht (by simpa using hvalid) hpin hhome

theorem translateEgress_of_leads (h : Leads tables conntrack p .egress s) :
    ∃ d, translateEgress tables conntrack p = .ok d ∧ d.destination = s := by
  unfold translateEgress
  cases h with
  | untracked ht hpin =>
    obtain ⟨d, hd, hs⟩ := hairpinEgress_of_hairpins hpin
    exact ⟨d, by simp [hd, ht, trackedEgress, bind, Except.bind], hs⟩
  | tracked ht hvalid hpin hhome =>
    obtain ⟨d, hd, hs⟩ := hairpinEgress_of_hairpins hpin
    simp [hd, ht, trackedEgress, bind, Except.bind, hvalid, hhome, hs]
  | trackedHome ht hvalid hpin hgateway hloop =>
    obtain ⟨d, hd, hs⟩ := hairpinEgress_of_hairpins hpin
    simp [hd, ht, trackedEgress, bind, Except.bind, hvalid, hgateway, hloop, hs]

def RedirectsTo (tables : Tables) (d : Decision) (address : Ipv4) : Prop :=
  d.action = .redirect ∧ d.destination.address = address ∧
    ∃ endpoint, tables.endpoint address = some endpoint ∧ d.ifindex = some endpoint.ifindex

theorem decideIngress_redirects
    (h : decideIngress tables conntrack p = .ok d) (hd : RedirectsTo tables d d.destination.address) :
    tables.policy (.forPacket p .ingress) ≠ some .deny ∧
      Leads tables conntrack p .ingress d.destination ∧
      ∃ endpoint, tables.endpoint d.destination.address = some endpoint ∧ endpoint.usable := by
  obtain ⟨hredirect, -, endpoint, hendpoint, -⟩ := hd
  obtain ⟨hpolicy, hsettled | ⟨d', reverse, htranslate, h⟩⟩ := decideIngress_eq_ok h
  · rw [translateIngress_settled hsettled] at hredirect
    cases hredirect
  · have hleads := translateIngress_leads htranslate
    have hroutes := routeIngress_routes h
    rw [hroutes.destination] at hendpoint ⊢
    rw [routeIngress_of_endpoint hendpoint] at h
    split_ifs at h with husable
    exact ⟨hpolicy, hleads, endpoint, hendpoint, husable⟩

theorem decideEgress_redirects {conntrack' : Conntrack}
    (h : decideEgress tables p conntrack = (.ok d, conntrack'))
    (hd : RedirectsTo tables d d.destination.address) :
    tables.policy (.forPacket p .egress) ≠ some .deny ∧
      Leads tables conntrack p .egress d.destination ∧
      ∃ endpoint, tables.endpoint d.destination.address = some endpoint ∧ endpoint.usable := by
  obtain ⟨-, -, endpoint, hendpoint, -⟩ := hd
  obtain ⟨hpolicy, d', htranslate, hroute⟩ := decideEgress_eq_ok h
  have hleads := translateEgress_leads htranslate
  obtain ⟨endpoint', hendpoint', husable, rfl, -⟩ | ⟨hnone, hroute⟩ := hroute
  · exact ⟨hpolicy, hleads, endpoint', hendpoint', husable⟩
  · have hdestination : d.destination = d'.destination := by
      obtain ⟨-, rfl, -⟩ | ⟨-, hleave⟩ := hroute
      · rfl
      · exact leave_destination hleave
    rw [hdestination, hnone] at hendpoint
    cases hendpoint

theorem redirects_iff {direction : Direction} :
    (∃ d, (decideAt tables direction p).result conntrack = .ok d ∧
        RedirectsTo tables d s.address ∧ d.destination = s) ↔
      tables.policy (.forPacket p direction) ≠ some .deny ∧ Leads tables conntrack p direction s ∧
        ∃ endpoint, tables.endpoint s.address = some endpoint ∧ endpoint.usable := by
  constructor
  · rintro ⟨d, hd, hto, rfl⟩
    cases direction with
    | ingress =>
      rw [result, decideAt_ingress] at hd
      exact decideIngress_redirects hd hto
    | egress =>
      have hrun : decideEgress tables p conntrack = (.ok d, (decideEgress tables p conntrack).2) :=
        Prod.ext hd rfl
      exact decideEgress_redirects hrun hto
  · rintro ⟨hpolicy, hleads, endpoint, hendpoint, husable⟩
    rw [← enforcePolicy_eq_ok] at hpolicy
    cases direction with
    | ingress =>
      obtain ⟨d, reverse, hd, rfl⟩ := translateIngress_of_leads hleads
      refine ⟨redirectTo d endpoint.ifindex endpoint.mac, ?_, ⟨rfl, rfl, endpoint, hendpoint, rfl⟩, rfl⟩
      rw [result, decideAt_ingress]
      simp [decideIngress, hpolicy, hd, routeIngress_of_endpoint hendpoint, husable, bind, Except.bind]
    | egress =>
      obtain ⟨d, hd, rfl⟩ := translateEgress_of_leads hleads
      refine ⟨redirectTo d endpoint.ifindex endpoint.mac, ?_, ⟨rfl, rfl, endpoint, hendpoint, rfl⟩, rfl⟩
      simp [result, decideAt, decideEgress_run, hpolicy, hd, hendpoint, husable]

/-- The ingress rules cover a packet: it is not redirected to an endpoint socket that a rule
denies. -/
def Covered (tables : Tables) (conntrack : Conntrack) (direction : Direction) (p : Packet) : Prop :=
  ∀ d address, (decideAt tables direction p).result conntrack = .ok d →
    RedirectsTo tables d address →
    tables.policy ⟨address, p.protocol, .ingress, d.destination.port⟩ ≠ some .deny

/-- A packet is covered by the ingress rules exactly when none of them denies the socket to which
the tables send it, its own rule is the one that stops it, or no usable endpoint is there. -/
theorem ingress_rules_cover_iff (tables : Tables) (conntrack : Conntrack) (direction : Direction)
    (p : Packet) :
    Covered tables conntrack direction p ↔
      ∀ socket endpoint, Leads tables conntrack p direction socket →
        tables.endpoint socket.address = some endpoint → endpoint.usable →
        tables.policy ⟨socket.address, p.protocol, .ingress, socket.port⟩ = some .deny →
        tables.policy (.forPacket p direction) = some .deny := by
  constructor
  · intro h socket endpoint hleads hendpoint husable hdeny
    by_contra hpolicy
    obtain ⟨d, hd, hto, rfl⟩ := redirects_iff.mpr ⟨hpolicy, hleads, endpoint, hendpoint, husable⟩
    exact h d _ hd hto hdeny
  · rintro h d address hd hto hdeny
    obtain rfl := hto.2.1
    obtain ⟨hpolicy, hleads, endpoint, hendpoint, husable⟩ := redirects_iff.mp ⟨d, hd, hto, rfl⟩
    exact hpolicy (h _ endpoint hleads hendpoint husable hdeny)

def deniedPublication : Tables where
  policy := fun key => if key = ⟨⟨10, 1, 0, 2⟩, 6, .ingress, 80⟩ then some .deny else none
  publishedPort := fun protocol port =>
    if protocol = 6 ∧ port = 8080 then some ⟨⟨10, 1, 0, 2⟩, 80⟩ else none
  endpoint := fun address =>
    if address = ⟨10, 1, 0, 2⟩ then some ⟨7, ⟨2, 0, 0, 0, 0, 9⟩, 0⟩ else none
  externalNetwork := none
  insertFails := fun _ => false

/-- A client's request to that port reaches the denied socket. -/
theorem published_port_bypasses_deny :
    ¬Covered deniedPublication Conntrack.empty .ingress
      ⟨6, ⟨⟨198, 51, 100, 7⟩, 40000⟩, ⟨⟨203, 0, 113, 1⟩, 8080⟩⟩ := by
  intro h
  have hleads : Leads deniedPublication Conntrack.empty
      ⟨6, ⟨⟨198, 51, 100, 7⟩, 40000⟩, ⟨⟨203, 0, 113, 1⟩, 8080⟩⟩ .ingress ⟨⟨10, 1, 0, 2⟩, 80⟩ :=
    .published rfl (by decide) (by decide) (by decide) (by decide)
  obtain ⟨d, hd, hto, hs⟩ := redirects_iff.mpr ⟨by decide, hleads, ⟨7, ⟨2, 0, 0, 0, 0, 9⟩, 0⟩,
    by decide, by decide⟩
  refine h d _ hd hto ?_
  rw [hs]
  decide

end Ferrocrate.Ebpf

import Ferrocrate.Ebpf.RoundTrip
import Ferrocrate.Lib.Runs

/-! Runs of classified packets over one conntrack map: which flow each reverse record answers. -/
namespace Ferrocrate.Ebpf
open Lib Lib.Program

structure Arrival where
  direction : Direction
  packet : Packet
  policy : PolicyKey → Option PolicyAction
  insertFails : FlowKey → Bool

def Arrival.flow (a : Arrival) : FlowKey := .fromPacket a.packet

def Tables.at (maps : Tables) (a : Arrival) : Tables :=
  { maps with policy := a.policy, insertFails := a.insertFails }

structure Seen where
  direction : Direction
  packet : Packet
  decision : Decision

def Decision.answers (d : Decision) : Option ConntrackRecord :=
  match d.reverseConntrack with
  | some record => some record
  | none => d.installedConntrack.map ConntrackPair.reverse

structure NatState where
  conntrack : Conntrack
  reverse : FlowKey → Option ConntrackRecord
  seen : List Seen

namespace NatState

def initial : NatState := ⟨.empty, fun _ => none, []⟩

def note (a : Arrival) (d : Decision) (s : NatState) : NatState where
  conntrack := s.conntrack
  reverse := fun flow =>
    if flow = a.flow then
      match d.answers with
      | some record => some record
      | none => s.reverse flow
    else s.reverse flow
  seen := s.seen ++ [⟨a.direction, a.packet, d⟩]

def classify (maps : Tables) (s : NatState) (a : Arrival) : NatState :=
  match decideAt (maps.at a) a.direction a.packet s.conntrack with
  | (.error _, conntrack) => { s with conntrack := conntrack }
  | (.ok d, conntrack) =>
    match d.reverseConntrack with
    | none => note a d { s with conntrack := conntrack }
    | some record =>
      if a.insertFails record.key then { s with conntrack := conntrack }
      else note a d { s with conntrack := conntrack.insert record }

end NatState

def Decision.view (d : Decision) : Socket × Socket × Translation :=
  (d.source, d.destination, d.translation)

/-- Different flows have different reverse keys, the map holds the record of each, and a flow that
was translated is translated the same way ever after. -/
structure NatSound (s : NatState) : Prop where
  apart : ∀ flow flow' record record', s.reverse flow = some record →
    s.reverse flow' = some record' → flow ≠ flow' → record.key ≠ record'.key
  answered : ∀ flow record, s.reverse flow = some record →
    s.conntrack record.key = some record.target
  steady : s.seen.Pairwise fun e e' => e.direction = e'.direction → e.packet = e'.packet →
    e.decision.translation ≠ .none → e'.decision.view = e.decision.view

section Hooks
variable {tables : Tables} {conntrack conntrack' : Conntrack} {direction : Direction} {p : Packet}
  {d d' : Decision}

def translateAt (tables : Tables) (direction : Direction) (conntrack : Conntrack) (p : Packet) :
    Except DecisionError Decision :=
  match direction with
  | .ingress =>
    match translateIngress tables conntrack p with
    | .error e => .error e
    | .ok (.settled d) => .ok d
    | .ok (.routed d _) => .ok d
  | .egress => translateEgress tables conntrack p

theorem translateAt_congr (h : conntrack (.fromPacket p) = conntrack' (.fromPacket p)) :
    translateAt tables direction conntrack p = translateAt tables direction conntrack' p := by
  cases direction with
  | ingress => simp only [translateAt, translateIngress, h]
  | egress => simp only [translateAt, translateEgress, h]

theorem Routes.view (h : Routes d d') : d'.view = d.view := by
  rw [Decision.view, Decision.view, h.source, h.destination, h.translation]

theorem decideAt_eq_ok (h : decideAt tables direction p conntrack = (.ok d, conntrack')) :
    ∃ d', translateAt tables direction conntrack p = .ok d' ∧
      (Routes d' d ∧ conntrack' = conntrack ∨
        direction = .egress ∧ d'.translation = .none ∧ (tables.endpoint p.source.address).isSome ∧
          ∃ external pair, tables.externalNetwork = some external ∧
            installGenericSnat tables p external conntrack = (.ok pair, conntrack') ∧
            d = snatDecision d' external pair) := by
  cases direction with
  | ingress =>
    rw [decideAt_ingress] at h
    obtain ⟨hdecide, rfl⟩ := Prod.mk.inj h
    obtain ⟨-, htranslate | ⟨d', reverse, htranslate, hroute⟩⟩ := decideIngress_eq_ok hdecide
    · refine ⟨d, ?_, .inl ⟨⟨rfl, rfl, rfl, rfl, rfl⟩, rfl⟩⟩
      simp only [translateAt, htranslate]
    · refine ⟨d', ?_, .inl ⟨routeIngress_routes hroute, rfl⟩⟩
      simp only [translateAt, htranslate]
  | egress =>
    obtain ⟨-, d', htranslate, hroute⟩ := decideEgress_eq_ok h
    refine ⟨d', htranslate, ?_⟩
    rcases hroute with ⟨endpoint, -, -, rfl, rfl⟩ | ⟨-, ⟨-, rfl, rfl⟩ | ⟨hsource, hleave⟩⟩
    · exact .inl ⟨routes_redirectTo .., rfl⟩
    · exact .inl ⟨⟨rfl, rfl, rfl, rfl, rfl⟩, rfl⟩
    · obtain ⟨external, hexternal, -, ⟨-, rfl, rfl⟩ | ⟨hnone, pair, hpair, rfl⟩ | ⟨-, rfl, rfl⟩⟩ :=
        leave_eq_ok hleave
      · exact .inl ⟨routes_redirectTo .., rfl⟩
      · exact .inr ⟨rfl, hnone, hsource, external, pair, hexternal, hpair, rfl⟩
      · exact .inl ⟨routes_redirectTo .., rfl⟩

structure Installs (p : Packet) (external : ExternalNetwork) (pair : ConntrackPair)
    (conntrack conntrack' : Conntrack) : Prop where
  port : ∃ probe port, snatCandidate p probe external.snatPortStart external.snatPortEnd
    = some port ∧ pair = conntrackPair p external port
  reverseFree : conntrack pair.reverse.key = none
  forwardFree : conntrack pair.forward.key = none
  keys : pair.forward.key ≠ pair.reverse.key
  after : conntrack' = (conntrack.insert pair.reverse).insert pair.forward

theorem remove_insert {record : ConntrackRecord} (h : conntrack record.key = none) :
    (conntrack.insert record).remove record.key = conntrack := by
  funext key
  rw [Conntrack.remove, Conntrack.insert]
  split_ifs with hkey
  · rw [hkey, h]
  · rfl

variable {external : ExternalNetwork}

theorem installs_of_installFrom {left : Nat} {pair : ConntrackPair}
    (h : installFrom tables p external left conntrack = (.ok pair, conntrack')) :
    Installs p external pair conntrack conntrack' := by
  induction left with
  | zero => cases h
  | succ left ih =>
    rw [installFrom_succ] at h
    cases hport : snatCandidate p (snatProbeLimit - (left + 1)) external.snatPortStart
        external.snatPortEnd with
    | none =>
      rw [hport] at h
      cases h
    | some port =>
      rw [hport] at h
      dsimp only at h
      split_ifs at h with hfails htaken hforward
      · cases h
      · exact ih h
      · cases h
      · obtain ⟨hpair, hafter⟩ := Prod.mk.inj h
        obtain rfl := Except.ok.inj hpair
        rw [not_or, Bool.not_eq_true, Bool.not_eq_true, Conntrack.insert] at hforward
        split_ifs at hforward with hkeys
        · simp at hforward
        · exact ⟨⟨_, port, hport, rfl⟩, by simpa using htaken, by simpa using hforward.2, hkeys,
            hafter.symm⟩

variable {e : DecisionError}

theorem installFrom_error {left : Nat}
    (h : installFrom tables p external left conntrack = (.error e, conntrack')) :
    conntrack' = conntrack := by
  induction left with
  | zero =>
    cases h
    rfl
  | succ left ih =>
    rw [installFrom_succ] at h
    cases hport : snatCandidate p (snatProbeLimit - (left + 1)) external.snatPortStart
        external.snatPortEnd with
    | none =>
      rw [hport] at h
      cases h
      rfl
    | some port =>
      rw [hport] at h
      dsimp only at h
      split_ifs at h with hfails htaken hforward
      · cases h
        rfl
      · exact ih h
      · cases h
        exact remove_insert (by simpa using htaken)
      · cases h

theorem leave_error {target : Option NatTarget}
    (h : leave tables p d target conntrack = (.error e, conntrack')) : conntrack' = conntrack := by
  rw [leave_run] at h
  cases hexternal : tables.externalNetwork with
  | none =>
    rw [hexternal] at h
    cases h
    rfl
  | some external =>
    simp only [hexternal] at h
    split_ifs at h
    · cases h
      rfl
    · cases h
    · cases hinstall : installGenericSnat tables p external conntrack with
      | mk result after =>
        rw [hinstall] at h
        cases result with
        | ok pair => cases h
        | error e' =>
          cases h
          exact installFrom_error hinstall
    · cases h
    · cases h
      rfl

theorem decideAt_error
    (h : decideAt tables direction p conntrack = (.error e, conntrack')) :
    conntrack' = conntrack := by
  cases direction with
  | ingress =>
    rw [decideAt_ingress] at h
    exact (Prod.mk.inj h).2.symm
  | egress =>
    change decideEgress tables p conntrack = _ at h
    rw [decideEgress_run] at h
    cases hpolicy : enforcePolicy tables p .egress with
    | error e' =>
      rw [hpolicy] at h
      cases h
      rfl
    | ok _ =>
      cases htranslate : translateEgress tables conntrack p with
      | error e' =>
        rw [hpolicy, htranslate] at h
        cases h
        rfl
      | ok d' =>
        simp only [hpolicy, htranslate] at h
        cases hendpoint : tables.endpoint d'.destination.address with
        | some endpoint =>
          simp only [hendpoint] at h
          split_ifs at h
          · cases h
          · cases h
            rfl
        | none =>
          simp only [hendpoint] at h
          split_ifs at h
          · cases h
          · exact leave_error h

structure Follows (tables : Tables) (p : Packet) (target : NatTarget) (d d' : Decision) : Prop where
  source : d'.source = target
  reverseConntrack : d'.reverseConntrack = d.reverseConntrack
  installedConntrack : d'.installedConntrack = d.installedConntrack
  translated : d'.translation ≠ .none
  outside : ¬(p.destination.address = gateway tables ∧ target.address.isLoopback) →
    d'.destination = d.destination ∧ d'.translation = .source

theorem follows_of_trackedEgress {target : NatTarget}
    (h : trackedEgress tables p d (some target) = .ok d') : Follows tables p target d d' := by
  unfold trackedEgress at h
  dsimp only at h
  split_ifs at h with hvalid hgateway
  · cases h
    exact ⟨rfl, rfl, rfl, by simp, fun houtside => absurd hgateway houtside⟩
  · cases h
    exact ⟨rfl, rfl, rfl, by simp, fun _ => ⟨rfl, rfl⟩⟩

def Requests (tables : Tables) (direction : Direction) (target : Option NatTarget) (p : Packet) :
    Prop :=
  direction = .ingress ∧ target = none ∧ ¬fromEndpointToHost tables p ∨
    direction = .egress ∧ hostLoopback p

inductive Stage (tables : Tables) (direction : Direction) (target : Option NatTarget) (p : Packet) :
    Decision → Prop
  | pass (hrequest : direction = .egress → target = none ∧ (hostLoopback p →
      tables.publishedPort p.protocol p.destination.port = none)) :
      Stage tables direction target p (Decision.pass p)
  | tracked {d : Decision} (htarget : target.isSome) (hreverse : d.reverseConntrack = none)
      (hinstalled : d.installedConntrack = none) (htranslated : d.translation ≠ .none) :
      Stage tables direction target p d
  | request {d : Decision} {port : PortTarget}
      (hport : tables.publishedPort p.protocol p.destination.port = some port)
      (hhook : Requests tables direction target p)
      (hrecord : d.reverseConntrack = some (publishedRecord p port (clientAddress tables p)))
      (hinstalled : d.installedConntrack = none) (htranslated : d.translation ≠ .none) :
      Stage tables direction target p d

theorem stage_of_translateEgress (h : translateEgress tables conntrack p = .ok d) :
    Stage tables .egress (conntrack (.fromPacket p)) p d := by
  obtain ⟨d₁, hpin, htracked⟩ := Except.bind_eq_ok.mp h
  cases htarget : conntrack (.fromPacket p) with
  | none =>
    rw [htarget] at htracked
    obtain rfl := Except.ok.inj htracked
    rcases hairpinEgress_eq_ok hpin with ⟨rfl, hnone⟩ | ⟨port, external, hloopback, hport, hext, rfl⟩
    · exact .pass fun _ => ⟨rfl, hnone⟩
    · exact .request hport (.inr ⟨rfl, hloopback⟩) (publishes_hairpin hloopback hext).record rfl
        (by simp [hairpin])
  | some target =>
    rw [htarget] at htracked
    have hfollows := follows_of_trackedEgress htracked
    rcases hairpinEgress_eq_ok hpin with ⟨rfl, -⟩ | ⟨port, external, hloopback, hport, hext, rfl⟩
    · exact .tracked rfl hfollows.reverseConntrack hfollows.installedConntrack hfollows.translated
    · exact .request hport (.inr ⟨rfl, hloopback⟩)
        (hfollows.reverseConntrack.trans (publishes_hairpin hloopback hext).record)
        hfollows.installedConntrack hfollows.translated

theorem stage_of_translateIngress {reverse : Bool}
    (h : translateIngress tables conntrack p = .ok (.routed d reverse)) :
    Stage tables .ingress (conntrack (.fromPacket p)) p d := by
  unfold translateIngress at h
  cases htarget : conntrack (.fromPacket p) with
  | some target =>
    rw [htarget] at h
    dsimp only [trackedIngress] at h
    split_ifs at h
    all_goals cases h
    all_goals exact .tracked rfl rfl rfl (by simp)
  | none =>
    rw [htarget] at h
    cases hport : tables.publishedPort p.protocol p.destination.port with
    | none =>
      simp only [hport] at h
      cases h
      exact .pass (by simp)
    | some port =>
      simp only [hport] at h
      split_ifs at h with hhost
      · cases h
      · unfold publishedIngress at h
        split_ifs at h with hvalid hloopback
        · cases hext : tables.externalNetwork with
          | none => simp [hext] at h
          | some external =>
            simp only [hext] at h
            cases h
            exact .request hport (.inl ⟨rfl, rfl, hhost⟩) (publishes_hairpin hloopback hext).record rfl
              (by simp [hairpin])
        · cases h
          have hclient : clientAddress tables p = p.source.address := by
            simp [clientAddress, hloopback]
          exact .request hport (.inl ⟨rfl, rfl, hhost⟩) (by rw [hclient]) rfl (by simp)

theorem stage_of_translateAt (h : translateAt tables direction conntrack p = .ok d) :
    Stage tables direction (conntrack (.fromPacket p)) p d := by
  cases direction with
  | egress => exact stage_of_translateEgress h
  | ingress =>
    cases htranslate : translateIngress tables conntrack p with
    | error e =>
      simp only [translateAt, htranslate] at h
      cases h
    | ok translated =>
      cases translated with
      | settled d' =>
        simp only [translateAt, htranslate] at h
        obtain rfl := Except.ok.inj h
        rw [translateIngress_settled htranslate]
        exact .pass (by simp)
      | routed d' reverse =>
        simp only [translateAt, htranslate] at h
        obtain rfl := Except.ok.inj h
        exact stage_of_translateIngress htranslate

end Hooks

namespace NatState

def Free (s : NatState) (flow : FlowKey) (record : ConntrackRecord) : Prop :=
  s.reverse flow = some record ∨
    s.conntrack record.key = none ∧ s.reverse record.key = none ∧ record.key ≠ flow

def Leaves (maps : Tables) (s : NatState) (a : Arrival) : Prop :=
  a.direction = .egress ∧ s.conntrack a.flow = none ∧
    (hostLoopback a.packet →
      maps.publishedPort a.packet.protocol a.packet.destination.port = none) ∧
    (maps.endpoint a.packet.source.address).isSome

structure Allowed (maps : Tables) (s : NatState) (a : Arrival) : Prop where
  request : ∀ port, maps.publishedPort a.packet.protocol a.packet.destination.port = some port →
    Requests maps a.direction (s.conntrack a.flow) a.packet →
      s.Free a.flow (publishedRecord a.packet port (clientAddress maps a.packet))
  snat : ∀ external, maps.externalNetwork = some external → s.Leaves maps a →
    s.reverse a.flow = none ∧
      ¬(a.packet.destination.address = external.bridgeGateway ∧ external.address.isLoopback) ∧
      ∀ probe port, snatCandidate a.packet probe external.snatPortStart external.snatPortEnd
        = some port → s.reverse (conntrackPair a.packet external port).reverse.key = none

structure Steady (maps : Tables) (s : NatState) : Prop where
  sound : NatSound s
  rooted : ∀ e ∈ s.seen, e.decision.translation ≠ .none →
    (s.reverse (.fromPacket e.packet)).isSome ∨ (s.conntrack (.fromPacket e.packet)).isSome
  fixed : ∀ e ∈ s.seen, e.decision.translation ≠ .none → ∀ d,
    translateAt maps e.direction s.conntrack e.packet = .ok d →
      d.translation ≠ .none ∧ d.view = e.decision.view

theorem steady_initial (maps : Tables) : Steady maps .initial where
  sound := ⟨by simp [initial], by simp [initial], .nil⟩
  rooted := by simp [initial]
  fixed := by simp [initial]

section Note
variable {maps : Tables} {s : NatState} {a : Arrival} {d : Decision} {conntrack : Conntrack}

theorem reverse_note (flow : FlowKey) {record : ConntrackRecord}
    (h : (note a d s).reverse flow = some record) :
    flow = a.flow ∧ d.answers = some record ∨ s.reverse flow = some record := by
  rw [note] at h
  dsimp only at h
  split_ifs at h with hflow
  · cases hanswers : d.answers with
    | none =>
      rw [hanswers] at h
      exact .inr h
    | some record' =>
      rw [hanswers] at h
      exact .inl ⟨hflow, h⟩
  · exact .inr h

theorem reverse_note_isSome {flow : FlowKey} (h : (s.reverse flow).isSome) :
    ((note a d s).reverse flow).isSome := by
  rw [note]
  dsimp only
  split_ifs with hflow
  · cases d.answers with
    | none => exact h
    | some record => rfl
  · exact h

def Adds (s : NatState) (conntrack : Conntrack) : Prop :=
  ∀ key, conntrack key = s.conntrack key ∨ s.conntrack key = none ∧ s.reverse key = none

theorem Adds.of_isSome (h : s.Adds conntrack) {key : FlowKey}
    (hkey : (s.reverse key).isSome ∨ (s.conntrack key).isSome) :
    conntrack key = s.conntrack key := by
  rcases h key with hsame | ⟨hconntrack, hreverse⟩
  · exact hsame
  · simp [hconntrack, hreverse] at hkey

theorem Steady.note (h : Steady maps s) (hadds : s.Adds conntrack)
    (hrecord : ∀ record, d.answers = some record → conntrack record.key = some record.target ∧
      (s.reverse a.flow = some record ∨ s.conntrack record.key = none))
    (hview : ∀ e ∈ s.seen, e.direction = a.direction → e.packet = a.packet →
      e.decision.translation ≠ .none → d.view = e.decision.view)
    (hrooted : d.translation ≠ .none → d.answers.isSome ∨ (conntrack a.flow).isSome)
    (hfixed : d.translation ≠ .none → ∀ d',
      translateAt maps a.direction conntrack a.packet = .ok d' →
        d'.translation ≠ .none ∧ d'.view = d.view) :
    Steady maps (NatState.note a d { s with conntrack := conntrack }) := by
  have hold : ∀ flow record, s.reverse flow = some record →
      conntrack record.key = some record.target := by
    intro flow record hflow
    have hanswered := h.sound.answered flow record hflow
    rw [hadds.of_isSome (.inr (by simp [hanswered])), hanswered]
  have hnew : ∀ flow record record', d.answers = some record → s.reverse flow = some record' →
      a.flow ≠ flow → record.key ≠ record'.key := by
    intro flow record record' hanswers hflow hne heq
    rcases (hrecord record hanswers).2 with hsame | hnone
    · exact h.sound.apart a.flow flow record record' hsame hflow hne heq
    · rw [heq, h.sound.answered flow record' hflow] at hnone
      cases hnone
  refine ⟨⟨?_, ?_, ?_⟩, ?_, ?_⟩
  · intro flow flow' record record' hflow hflow' hne
    rcases reverse_note flow hflow with ⟨rfl, hanswers⟩ | hflow
    · rcases reverse_note flow' hflow' with ⟨rfl, -⟩ | hflow'
      · exact absurd rfl hne
      · exact hnew flow' record record' hanswers hflow' hne
    · rcases reverse_note flow' hflow' with ⟨rfl, hanswers⟩ | hflow'
      · exact (hnew flow record' record hanswers hflow (Ne.symm hne)).symm
      · exact h.sound.apart flow flow' record record' hflow hflow' hne
  · intro flow record hflow
    rcases reverse_note flow hflow with ⟨-, hanswers⟩ | hflow
    · exact (hrecord record hanswers).1
    · exact hold flow record hflow
  · apply List.pairwise_append.mpr
    refine ⟨h.sound.steady, List.pairwise_singleton .., ?_⟩
    intro e he e' he' hdirection hpacket
    obtain rfl := List.mem_singleton.mp he'
    exact hview e he hdirection hpacket
  · intro e he htranslated
    rcases List.mem_append.mp he with he | he
    · rcases h.rooted e he htranslated with hreverse | hconntrack
      · exact .inl (reverse_note_isSome hreverse)
      · right
        change (conntrack _).isSome
        rw [hadds.of_isSome (.inr hconntrack)]
        exact hconntrack
    · obtain rfl := List.mem_singleton.mp he
      rcases hrooted htranslated with hanswers | hconntrack
      · left
        obtain ⟨record, hanswers⟩ := Option.isSome_iff_exists.mp hanswers
        simp [NatState.note, Arrival.flow, hanswers]
      · exact .inr hconntrack
  · intro e he htranslated
    rcases List.mem_append.mp he with he | he
    · have hsame := hadds.of_isSome (h.rooted e he htranslated)
      change ∀ d, translateAt maps e.direction conntrack e.packet = .ok d → _
      rw [translateAt_congr hsame]
      exact h.fixed e he htranslated
    · obtain rfl := List.mem_singleton.mp he
      exact hfixed htranslated

end Note

section Step
variable {maps : Tables} {s : NatState} {a : Arrival} {d d' : Decision}

theorem adds_refl : s.Adds s.conntrack := fun _ => .inl rfl

variable {record : ConntrackRecord}

theorem adds_insert (hconntrack : s.conntrack record.key = none)
    (hreverse : s.reverse record.key = none) : s.Adds (s.conntrack.insert record) := by
  intro key
  rw [Conntrack.insert]
  split_ifs with hkey
  · rw [hkey]
    exact .inr ⟨hconntrack, hreverse⟩
  · exact .inl rfl

theorem Steady.view_of_routes (h : Steady maps s)
    (htranslate : translateAt maps a.direction s.conntrack a.packet = .ok d')
    (hroutes : Routes d' d) : ∀ e ∈ s.seen, e.direction = a.direction → e.packet = a.packet →
      e.decision.translation ≠ .none → d.view = e.decision.view := by
  intro e he hdirection hpacket htranslated
  rw [← hdirection, ← hpacket] at htranslate
  rw [hroutes.view]
  exact (h.fixed e he htranslated d' htranslate).2

theorem fixed_of_routes {conntrack : Conntrack}
    (htranslate : translateAt maps a.direction s.conntrack a.packet = .ok d')
    (hroutes : Routes d' d) (hsame : conntrack a.flow = s.conntrack a.flow)
    (htranslated : d.translation ≠ .none) : ∀ d'',
      translateAt maps a.direction conntrack a.packet = .ok d'' →
        d''.translation ≠ .none ∧ d''.view = d.view := by
  intro d'' h
  rw [translateAt_congr hsame, htranslate] at h
  obtain rfl := Except.ok.inj h
  exact ⟨hroutes.translation ▸ htranslated, hroutes.view.symm⟩

theorem answers_of_reverse (h : d.reverseConntrack = some record) :
    d.answers = some record := by
  rw [Decision.answers, h]

theorem answers_eq_none (hreverse : d.reverseConntrack = none)
    (hinstalled : d.installedConntrack = none) : d.answers = none := by
  rw [Decision.answers, hreverse, hinstalled]
  rfl

theorem Steady.noteUnrecorded (h : Steady maps s)
    (htranslate : translateAt maps a.direction s.conntrack a.packet = .ok d')
    (hroutes : Routes d' d) (hanswers : d.answers = none)
    (hrooted : d.translation ≠ .none → (s.conntrack a.flow).isSome) :
    Steady maps (NatState.note a d s) := by
  apply h.note adds_refl
  · intro record hrecord
    rw [hanswers] at hrecord
    cases hrecord
  · exact h.view_of_routes htranslate hroutes
  · intro htranslated
    exact .inr (hrooted htranslated)
  · exact fixed_of_routes htranslate hroutes rfl

theorem Steady.noteRequest (h : Steady maps s)
    (htranslate : translateAt maps a.direction s.conntrack a.packet = .ok d')
    (hroutes : Routes d' d)
    (hrecord : d.reverseConntrack = some record) (hfree : s.Free a.flow record) :
    Steady maps (NatState.note a d { s with conntrack := s.conntrack.insert record }) := by
  have hinserted : s.conntrack.insert record record.key = some record.target := if_pos rfl
  have hanswers := answers_of_reverse hrecord
  have hadds : s.Adds (s.conntrack.insert record) ∧
      s.conntrack.insert record a.flow = s.conntrack a.flow ∧
      (s.reverse a.flow = some record ∨ s.conntrack record.key = none) := by
    rcases hfree with hown | ⟨hconntrack, hreverse, hne⟩
    · have hsame : s.conntrack.insert record = s.conntrack := by
        funext key
        rw [Conntrack.insert]
        split_ifs with hkey
        · rw [hkey, h.sound.answered a.flow record hown]
        · rfl
      rw [hsame]
      exact ⟨adds_refl, rfl, .inl hown⟩
    · exact ⟨adds_insert hconntrack hreverse, if_neg (Ne.symm hne), .inr hconntrack⟩
  apply h.note hadds.1
  · intro record' hrecord'
    obtain rfl := Option.some.inj (hanswers.symm.trans hrecord')
    exact ⟨hinserted, hadds.2.2⟩
  · exact h.view_of_routes htranslate hroutes
  · intro _
    rw [hanswers]
    exact .inl rfl
  · exact fixed_of_routes htranslate hroutes hadds.2.1

theorem Steady.noteSnat (h : Steady maps s) (hdirection : a.direction = .egress)
    (htranslate : translateAt maps a.direction s.conntrack a.packet = .ok (Decision.pass a.packet))
    {external : ExternalNetwork} (hexternal : maps.externalNetwork = some external)
    {pair : ConntrackPair} {conntrack : Conntrack}
    (hinstalls : Installs a.packet external pair s.conntrack conntrack)
    (hreverse : s.reverse a.flow = none)
    (houtside : ¬(a.packet.destination.address = external.bridgeGateway ∧
      external.address.isLoopback))
    (hkey : s.reverse pair.reverse.key = none) :
    Steady maps (NatState.note a (snatDecision (Decision.pass a.packet) external pair)
      { s with conntrack := conntrack }) := by
  obtain ⟨⟨probe, port, -, rfl⟩, hreverseFree, hforwardFree, hkeys, rfl⟩ := hinstalls
  have hforward : (conntrackPair a.packet external port).forward.key = a.flow := rfl
  rw [hforward] at hforwardFree hkeys
  apply h.note
  · intro key
    rw [Conntrack.insert, hforward]
    split_ifs with hflow
    · rw [hflow]
      exact .inr ⟨hforwardFree, hreverse⟩
    · exact adds_insert hreverseFree hkey key
  · intro record hanswers
    obtain rfl := Option.some.inj hanswers
    refine ⟨?_, .inr hreverseFree⟩
    rw [Conntrack.insert, hforward, if_neg (Ne.symm hkeys)]
    exact if_pos rfl
  · intro e he hsame hpacket htranslated
    rw [← hsame, ← hpacket] at htranslate
    exact absurd rfl (h.fixed e he htranslated _ htranslate).1
  · intro _
    exact .inl rfl
  · intro _ d'' htranslate'
    rw [hdirection] at htranslate htranslate'
    obtain ⟨d₁, hpin, htracked⟩ := Except.bind_eq_ok.mp htranslate
    rw [show s.conntrack (.fromPacket a.packet) = none from hforwardFree] at htracked
    obtain rfl := Except.ok.inj htracked
    obtain ⟨d₂, hpin', htracked'⟩ := Except.bind_eq_ok.mp htranslate'
    obtain rfl := Except.ok.inj (hpin.symm.trans hpin')
    have hlookup : ((s.conntrack.insert (conntrackPair a.packet external port).reverse).insert
        (conntrackPair a.packet external port).forward) (.fromPacket a.packet)
          = some ⟨external.address, port⟩ := if_pos rfl
    rw [hlookup] at htracked'
    have hfollows := follows_of_trackedEgress htracked'
    have hgateway : gateway maps = external.bridgeGateway := by simp [gateway, hexternal]
    obtain ⟨hdestination, htranslation⟩ := hfollows.outside (by rw [hgateway]; exact houtside)
    refine ⟨hfollows.translated, ?_⟩
    rw [Decision.view, hfollows.source, hdestination, htranslation]
    rfl

theorem Steady.classify (maps : Tables) (s : NatState) (a : Arrival) (hallowed : s.Allowed maps a)
    (h : Steady maps s) : Steady maps (NatState.classify maps s a) := by
  rw [NatState.classify]
  cases hdecide : decideAt (maps.at a) a.direction a.packet s.conntrack with
  | mk result conntrack =>
    cases result with
    | error e =>
      rw [decideAt_error hdecide]
      exact h
    | ok d =>
      obtain ⟨d', htranslate, ⟨hroutes, rfl⟩ |
        ⟨hdirection, hnone, hsource, external, pair, hexternal, hinstall, rfl⟩⟩ :=
        decideAt_eq_ok hdecide
      · -- the translating stage reads none of the tables that change
        change translateAt maps a.direction s.conntrack a.packet = .ok d' at htranslate
        dsimp only
        cases stage_of_translateAt htranslate with
        | pass hpass =>
          rw [hroutes.reverseConntrack]
          exact h.noteUnrecorded htranslate hroutes
            (answers_eq_none hroutes.reverseConntrack hroutes.installedConntrack)
            fun htranslated => absurd hroutes.translation htranslated
        | tracked htarget hreverse hinstalled htranslated =>
          have hnoRecord := hroutes.reverseConntrack.trans hreverse
          rw [hnoRecord]
          exact h.noteUnrecorded htranslate hroutes
            (answers_eq_none hnoRecord (hroutes.installedConntrack.trans hinstalled))
            fun _ => htarget
        | request hport hhook hrecord hinstalled htranslated =>
          have hrecord' := hroutes.reverseConntrack.trans hrecord
          rw [hrecord']
          dsimp only
          split_ifs
          · exact h
          · exact h.noteRequest htranslate hroutes hrecord' (hallowed.request _ hport hhook)
      · change translateAt maps a.direction s.conntrack a.packet = .ok d' at htranslate
        have hinstalls := installs_of_installFrom hinstall
        obtain ⟨probe, port, hport, hpair⟩ := hinstalls.port
        cases stage_of_translateAt htranslate with
        | pass hpass =>
          obtain ⟨hflow, hloopback⟩ := hpass hdirection
          obtain ⟨hreverse, houtside, hkeys⟩ :=
            hallowed.snat external hexternal ⟨hdirection, hflow, hloopback, hsource⟩
          exact h.noteSnat hdirection htranslate hexternal hinstalls hreverse houtside
            (hpair ▸ hkeys probe port hport)
        | tracked htarget hreverse hinstalled htranslated => exact absurd hnone htranslated
        | request hport hhook hrecord hinstalled htranslated => exact absurd hnone htranslated

theorem reverse_classify_of_ne (maps : Tables) (s : NatState) {a : Arrival} {flow : FlowKey}
    (h : flow ≠ a.flow) : (NatState.classify maps s a).reverse flow = s.reverse flow := by
  rw [NatState.classify]
  cases decideAt (maps.at a) a.direction a.packet s.conntrack with
  | mk result conntrack =>
    cases result with
    | error e => rfl
    | ok d =>
      dsimp only
      cases d.reverseConntrack with
      | none => exact if_neg h
      | some record =>
        dsimp only
        split_ifs
        · rfl
        · exact if_neg h

end Step

end NatState

/-- No reverse keys collide, every reverse key holds its flow's record and flows are translated
steadily, in every run in which no record is written over another flow. -/
theorem nat_flows_never_collide {maps : Tables} {arrivals : List Arrival}
    (h : Runs.Along (NatState.classify maps) (NatState.Allowed maps) .initial arrivals) :
    Runs.Throughout (NatState.classify maps) NatSound .initial arrivals := by
  have hsteady := h.invariant (NatState.Steady.classify maps) (NatState.steady_initial maps)
  exact hsteady.mono fun _ hs => hs.sound

def arrival (direction : Direction) (packet : Packet) : Arrival :=
  ⟨direction, packet, fun _ => none, fun _ => false⟩

def clientRequest (asked : Ipv4) : Arrival :=
  arrival .ingress ⟨6, ⟨⟨198, 51, 100, 7⟩, 5000⟩, ⟨asked, 8080⟩⟩

def endpointRequest : Arrival :=
  arrival .egress ⟨6, ⟨⟨10, 1, 0, 2⟩, 4000⟩, ⟨⟨198, 51, 100, 20⟩, 443⟩⟩

def plainArrivals : List Arrival :=
  [clientRequest ⟨203, 0, 113, 1⟩, clientRequest ⟨203, 0, 113, 1⟩, endpointRequest]

theorem allowed_clientRequest {s : NatState} {asked : Ipv4}
    (h : s.Free (clientRequest asked).flow (publishedRecord (clientRequest asked).packet
      ⟨⟨10, 1, 0, 2⟩, 80⟩ ⟨198, 51, 100, 7⟩)) : s.Allowed publication (clientRequest asked) where
  request := by
    intro port hport _
    obtain rfl := Option.some.inj hport
    exact h
  snat := by
    rintro external - ⟨hdirection, -⟩
    cases hdirection

theorem plain_flows_never_collide :
    Runs.Along (NatState.classify publication) (NatState.Allowed publication) .initial
        plainArrivals ∧
      Runs.Throughout (NatState.classify publication) NatSound .initial plainArrivals := by
  have hallowed : Runs.Along (NatState.classify publication) (NatState.Allowed publication)
      .initial plainArrivals := by
    refine ⟨allowed_clientRequest (.inr ⟨rfl, rfl, by decide⟩),
      allowed_clientRequest (.inl (by decide +kernel)), ⟨?_, ?_⟩, trivial⟩
    · intro port hport
      cases hport
    · intro external hexternal _
      obtain rfl := Option.some.inj hexternal
      refine ⟨by decide +kernel, by decide, ?_⟩
      intro probe port _
      have hne : (conntrackPair endpointRequest.packet bridgeNetwork port).reverse.key
          ≠ (clientRequest ⟨203, 0, 113, 1⟩).flow := by
        intro heq
        have hsource : (⟨198, 51, 100, 20⟩ : Ipv4) = ⟨198, 51, 100, 7⟩ := congrArg FlowKey.source heq
        revert hsource
        decide
      rw [NatState.reverse_classify_of_ne _ _ hne, NatState.reverse_classify_of_ne _ _ hne]
      rfl
  exact ⟨hallowed, nat_flows_never_collide hallowed⟩

/-- One client socket asks the published port at two addresses of the host: both requests have one
reverse key, and the second takes the record of the first. -/
theorem two_addresses_collide : ¬NatSound ([clientRequest ⟨203, 0, 113, 1⟩,
    clientRequest ⟨203, 0, 113, 2⟩].foldl (NatState.classify publication) .initial) := by
  intro h
  have hapart := h.apart (clientRequest ⟨203, 0, 113, 1⟩).flow (clientRequest ⟨203, 0, 113, 2⟩).flow
    (publishedRecord (clientRequest ⟨203, 0, 113, 1⟩).packet ⟨⟨10, 1, 0, 2⟩, 80⟩ ⟨198, 51, 100, 7⟩)
    (publishedRecord (clientRequest ⟨203, 0, 113, 2⟩).packet ⟨⟨10, 1, 0, 2⟩, 80⟩ ⟨198, 51, 100, 7⟩)
    (by decide +kernel) (by decide +kernel) (by decide)
  exact hapart rfl

end Ferrocrate.Ebpf

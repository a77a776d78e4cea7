import Ferrocrate.Ebpf.RoundTrip

/-! A packet redirected to the host's loopback is seen there once more. -/
namespace Ferrocrate.Ebpf
open Lib Lib.Program

variable {tables : Tables} {conntrack : Conntrack} {p : Packet} {d : Decision}

def PassesUntouched (result : Except DecisionError Decision) : Prop :=
  ∃ d, result = .ok d ∧ d.action = .pass ∧ d.translation = .none ∧
    d.reverseConntrack = none ∧ d.installedConntrack = none

def Decision.onward (d : Decision) (p : Packet) : Packet := ⟨p.protocol, d.source, d.destination⟩

def followed (tables : Tables) (p : Packet) (target : NatTarget) : Packet :=
  if (tables.endpoint p.source.address).isSome then
    if p.destination.address = gateway tables ∧ target.address.isLoopback then
      ⟨p.protocol, target, { p.destination with address := target.address }⟩
    else
      ⟨p.protocol, target, p.destination⟩
  else
    ⟨p.protocol, p.source, target⟩

def Recognised (tables : Tables) (conntrack : Conntrack) (p : Packet) : Prop :=
  match conntrack (.fromPacket p) with
  | some target => validTarget target ∧ p.destination = target
  | none => tables.publishedPort p.protocol p.destination.port = none ∨
    (tables.endpoint p.source.address).isSome

def FollowedRecognised (tables : Tables) (conntrack : Conntrack) (p : Packet) : Prop :=
  ∀ target, conntrack (.fromPacket p) = some target →
    Recognised tables conntrack (followed tables p target)

variable {reverse : Bool}

theorem trackedIngress_routed {target : NatTarget}
    (h : trackedIngress tables p target = .ok (.routed d reverse)) :
    d.onward p = followed tables p target ∧ d.redirectIngress = false := by
  unfold trackedIngress at h
  unfold followed
  split_ifs at h with hvalid hsame hendpoint hgateway
  · cases h
  · cases h
    rw [if_pos hendpoint, if_pos hgateway]
    exact ⟨rfl, rfl⟩
  · cases h
    rw [if_pos hendpoint, if_neg hgateway]
    exact ⟨rfl, rfl⟩
  · cases h
    rw [if_neg hendpoint]
    exact ⟨rfl, rfl⟩

theorem trackedIngress_translates {target : NatTarget}
    (h : trackedIngress tables p target = .ok (.routed d reverse)) : d.translation ≠ .none := by
  unfold trackedIngress at h
  split_ifs at h
  · cases h
  · cases h
    exact nofun
  · cases h
    exact nofun
  · cases h
    exact nofun

theorem publishedIngress_routed {target : PortTarget}
    (h : publishedIngress tables p target = .ok (.routed d reverse)) :
    d.translation ≠ .none ∧ d.redirectIngress = false ∧ reverse = false := by
  unfold publishedIngress at h
  split_ifs at h
  · split at h
    · cases h
    · cases h
      exact ⟨nofun, rfl, rfl⟩
  · cases h
    exact ⟨nofun, rfl, rfl⟩

theorem routeIngress_redirectIngress {d' : Decision}
    (h : routeIngress tables d reverse = .ok d') (hd : d.redirectIngress = false)
    (hredirect : d'.redirectIngress = true) :
    reverse = true ∧ tables.endpoint d.destination.address = none ∧
      (∃ external, tables.externalNetwork = some external) ∧
      d.destination.address.isLoopback = true := by
  unfold routeIngress at h
  cases hend : tables.endpoint d.destination.address with
  | some endpoint =>
    simp only [hend] at h
    split_ifs at h
    cases h
    exact absurd (hd.symm.trans hredirect) Bool.false_ne_true
  | none =>
    cases reverse with
    | true =>
      cases hext : tables.externalNetwork with
      | none => simp [hend, hext] at h
      | some external =>
        simp only [hend, hext, if_true] at h
        split_ifs at h with hloopback hindex hready
        · exact ⟨rfl, rfl, ⟨external, rfl⟩, hloopback⟩
        · cases h
          exact absurd (hd.symm.trans hredirect) Bool.false_ne_true
    | false =>
      simp only [hend, Bool.false_eq_true, if_false] at h
      split_ifs at h
      cases h
      exact absurd (hd.symm.trans hredirect) Bool.false_ne_true

theorem decideIngress_redirectIngress (h : decideIngress tables conntrack p = .ok d)
    (hredirect : d.redirectIngress = true) :
    ∃ target, conntrack (.fromPacket p) = some target ∧ d.onward p = followed tables p target ∧
      tables.endpoint d.destination.address = none ∧
      (∃ external, tables.externalNetwork = some external) ∧
      d.destination.address.isLoopback = true := by
  obtain ⟨-, hsettled | ⟨d', reverse, htranslate, hroute⟩⟩ := decideIngress_eq_ok h
  · rw [translateIngress_settled hsettled] at hredirect
    cases hredirect
  · have hroutes := routeIngress_routes hroute
    have honward : d.onward p = d'.onward p := by
      rw [Decision.onward, hroutes.source, hroutes.destination, Decision.onward]
    rw [honward, hroutes.destination]
    unfold translateIngress at htranslate
    cases htarget : conntrack (.fromPacket p) with
    | some target =>
      simp only [htarget] at htranslate
      obtain ⟨hfollowed, hd'⟩ := trackedIngress_routed htranslate
      obtain ⟨-, hrest⟩ := routeIngress_redirectIngress hroute hd' hredirect
      exact ⟨target, rfl, hfollowed, hrest⟩
    | none =>
      simp only [htarget] at htranslate
      cases hport : tables.publishedPort p.protocol p.destination.port with
      | none =>
        simp only [hport] at htranslate
        cases htranslate
        cases (routeIngress_redirectIngress hroute rfl hredirect).1
      | some target =>
        simp only [hport] at htranslate
        split_ifs at htranslate
        · cases htranslate
        · obtain ⟨-, hd', rfl⟩ := publishedIngress_routed htranslate
          cases (routeIngress_redirectIngress hroute hd' hredirect).1

theorem passesUntouched_pass : PassesUntouched (.ok (Decision.pass p)) :=
  ⟨_, rfl, rfl, rfl, rfl, rfl⟩

theorem not_passesUntouched_error {e : DecisionError} : ¬PassesUntouched (.error e) := by
  rintro ⟨_, h, -⟩
  cases h

theorem not_passesUntouched_routed (hd : d.translation ≠ .none) :
    ¬PassesUntouched (routeIngress tables d reverse) := by
  rintro ⟨d', h, -, htranslation, -⟩
  exact hd ((routeIngress_routes h).translation ▸ htranslation)

def finishIngress (tables : Tables) : Translated → Except DecisionError Decision
  | .settled decision => pure decision
  | .routed decision reverse => routeIngress tables decision reverse

theorem decideIngress_of_allowed (hpolicy : enforcePolicy tables p .ingress = .ok ()) :
    decideIngress tables conntrack p =
      translateIngress tables conntrack p >>= finishIngress tables := by
  rw [decideIngress, hpolicy]
  change (translateIngress tables conntrack p >>= _) = _
  congr 1

theorem passesUntouched_tracked (target : NatTarget) :
    PassesUntouched (trackedIngress tables p target >>= finishIngress tables) ↔
      validTarget target = true ∧ p.destination = target := by
  cases htracked : trackedIngress tables p target with
  | error e =>
    refine iff_of_false not_passesUntouched_error ?_
    rintro ⟨hvalid, hsame⟩
    rw [trackedIngress, if_neg (by simp [hvalid]), if_pos hsame] at htracked
    cases htracked
  | ok translated =>
    cases translated with
    | settled d =>
      unfold trackedIngress at htracked
      split_ifs at htracked with hvalid hsame
      · cases htracked
        exact iff_of_true passesUntouched_pass ⟨by simpa using hvalid, hsame⟩
      · cases htracked
      · cases htracked
      · cases htracked
    | routed d reverse =>
      refine iff_of_false
        (not_passesUntouched_routed (trackedIngress_translates htracked)) ?_
      rintro ⟨hvalid, hsame⟩
      rw [trackedIngress, if_neg (by simp [hvalid]), if_pos hsame] at htracked
      cases htracked

theorem not_passesUntouched_published (target : PortTarget) :
    ¬PassesUntouched (publishedIngress tables p target >>= finishIngress tables) := by
  cases hpublished : publishedIngress tables p target with
  | error e => exact not_passesUntouched_error
  | ok translated =>
    cases translated with
    | settled d =>
      unfold publishedIngress at hpublished
      split_ifs at hpublished
      · split at hpublished <;> cases hpublished
      · cases hpublished
    | routed d reverse => exact not_passesUntouched_routed (publishedIngress_routed hpublished).1

theorem passesUntouched_iff (hpolicy : enforcePolicy tables p .ingress = .ok ())
    (hexternal : ∃ external, tables.externalNetwork = some external)
    (hloopback : p.destination.address.isLoopback = true)
    (hendpoint : tables.endpoint p.destination.address = none) :
    PassesUntouched (decideIngress tables conntrack p) ↔ Recognised tables conntrack p := by
  obtain ⟨external, hexternal⟩ := hexternal
  rw [decideIngress_of_allowed hpolicy, translateIngress, Recognised]
  cases conntrack (.fromPacket p) with
  | some target => exact passesUntouched_tracked target
  | none =>
    cases tables.publishedPort p.protocol p.destination.port with
    | none =>
      refine iff_of_true ?_ (.inl rfl)
      show PassesUntouched (routeIngress tables (Decision.pass p) false)
      have hroute : routeIngress tables (Decision.pass p) false = .ok (Decision.pass p) := by
        have hnone : tables.endpoint (Decision.pass p).destination.address = none := hendpoint
        rw [routeIngress, hnone]
        rfl
      rw [hroute]
      exact passesUntouched_pass
    | some target =>
      simp only [reduceCtorEq, false_or]
      have hhost : fromEndpointToHost tables p = (tables.endpoint p.source.address).isSome := by
        simp [fromEndpointToHost, hexternal, hloopback]
      rw [hhost]
      cases (tables.endpoint p.source.address).isSome with
      | true => exact iff_of_true passesUntouched_pass rfl
      | false => exact iff_of_false (not_passesUntouched_published target) Bool.false_ne_true

/-- A packet redirected into the host's ingress is let through there, where the policy allows it,
exactly when the packet that its record makes of it is recognised. -/
theorem redirected_passes_iff (tables : Tables) (conntrack : Conntrack) (p : Packet) (d : Decision)
    (h : decideIngress tables conntrack p = .ok d) (hredirect : d.redirectIngress = true)
    (hpolicy : enforcePolicy tables (d.onward p) .ingress = .ok ()) :
    PassesUntouched (decideIngress tables conntrack (d.onward p)) ↔
      FollowedRecognised tables conntrack p := by
  obtain ⟨target, htarget, honward, hendpoint, hexternal, hloopback⟩ :=
    decideIngress_redirectIngress h hredirect
  rw [passesUntouched_iff hpolicy hexternal hloopback hendpoint, honward, FollowedRecognised]
  constructor
  · intro hrecognised target' htarget'
    obtain rfl := Option.some.inj (htarget.symm.trans htarget')
    exact hrecognised
  · exact fun hall => hall target htarget

def hairpinReply : Packet := ⟨6, ⟨⟨10, 1, 0, 2⟩, 80⟩, ⟨⟨10, 1, 0, 1⟩, 40000⟩⟩

def hairpinConntrack : Conntrack :=
  Conntrack.empty.insert
    (publishedRecord (loopbackRequest ⟨127, 0, 0, 1⟩) ⟨⟨10, 1, 0, 2⟩, 80⟩ ⟨10, 1, 0, 1⟩)

def hairpinReplyDecision : Decision :=
  { redirectTo (Decision.pass hairpinReply) 1 Mac.zero with
    source := ⟨⟨127, 0, 0, 1⟩, 8080⟩
    destination := ⟨⟨127, 0, 0, 1⟩, 40000⟩
    redirectIngress := true
    translation := .sourceAndDestination }

theorem reply_to_unpublished_port :
    PassesUntouched
      (decideIngress publication hairpinConntrack (hairpinReplyDecision.onward hairpinReply)) := by
  refine (redirected_passes_iff publication hairpinConntrack hairpinReply hairpinReplyDecision
    (by decide +kernel) rfl rfl).mpr fun target htarget => ?_
  have hrecord : hairpinConntrack (.fromPacket hairpinReply) = some ⟨⟨127, 0, 0, 1⟩, 8080⟩ := by
    decide +kernel
  obtain rfl := Option.some.inj (hrecord.symm.trans htarget)
  have hnone : hairpinConntrack (.fromPacket
      (followed publication hairpinReply ⟨⟨127, 0, 0, 1⟩, 8080⟩)) = none := by decide +kernel
  rw [Recognised, hnone]
  exact .inl (by decide +kernel)

def publications : Tables :=
  { publication with
    publishedPort := fun protocol port =>
      if protocol = 6 ∧ port = 40000 then some ⟨⟨10, 1, 0, 2⟩, 81⟩
      else publication.publishedPort protocol port }

/-- A client whose own port is published: the reply to it is taken for a request. -/
theorem reply_to_published_port :
    ¬∀ tables conntrack p d, decideIngress tables conntrack p = .ok d →
      d.redirectIngress = true → enforcePolicy tables (d.onward p) .ingress = .ok () →
        PassesUntouched (decideIngress tables conntrack (d.onward p)) := by
  intro h
  obtain ⟨d, hd, -, htranslation, -⟩ := h publications hairpinConntrack hairpinReply
    hairpinReplyDecision (by decide +kernel) rfl rfl
  have htwice : (decideIngress publications hairpinConntrack
      (hairpinReplyDecision.onward hairpinReply)).toOption.map Decision.translation =
        some .sourceAndDestination := by decide +kernel
  rw [hd] at htwice
  cases htranslation.symm.trans (Option.some.inj htwice)

end Ferrocrate.Ebpf

import Ferrocrate.Authorization.Runtime
import Ferrocrate.Lib.Sha256

/-! Which permits of a runtime authorization pass the checkpoint admission by, and what for. -/
namespace Ferrocrate.Authorization.Gate
open Lib Lib.Program
open Witness

structure Call where
  copy : Option RequestOrigin
  moment : Moment
  action : Action
  record : ContainerRecord
  run : Option RunSecurityFacts

def Call.authorize (copy : Option RequestOrigin) (m : Moment) (action : Action)
    (record : ContainerRecord) : Call :=
  ⟨copy, m, action, record, none⟩

/-! What one call does. -/

section Specification
variable {sha256 : Hasher} {serialise : RequestContext → Option Bytes} {ed : Ed25519}

structure SameBut (w w' : World) : Prop where
  consumed : w'.consumed = w.consumed
  admitted : w'.admitted = w.admitted

theorem SameBut.refl (w : World) : SameBut w w := ⟨rfl, rfl⟩

theorem wp_journaled {α : Type} (operation : Journaled α) (w : World) :
    wp (journaled operation) (fun _ w' => SameBut w w') (fun _ w' => SameBut w w') w := by
  unfold wp journaled
  cases hj : w.journal with
  | none => exact .refl w
  | some j =>
    dsimp only
    cases operation j with
    | mk r j' => cases r <;> exact ⟨rfl, rfl⟩

structure Consumed (auth : RuntimeAuthorization ed) (action : Action) (record : ContainerRecord)
    (policyDigest : Digest) (operation : OperationId) (w w' : World) : Prop where
  before : w.consumed = false
  after : w'.consumed = true
  covers : ∃ authority ∈ auth.emergency, ∃ origin ∈ auth.origin,
    authority.Covers action record.id record.generation origin.principal policyDigest operation

namespace RuntimeAuthorization
variable {auth : RuntimeAuthorization ed} {m : Moment} {action : Action} {record : ContainerRecord}

theorem wp_receive (template : WitnessRecord) (w : World) :
    wp (auth.receive sha256 m action record template) (fun _ w' => SameBut w w')
      (fun _ w' => SameBut w w') w := by
  rw [receive, wp_bind, wp_get, wp_ite]
  refine ⟨fun _ => ?_, fun _ => .refl w⟩
  rw [wp_bind, wp_ofExcept]
  refine ⟨fun recipe _ => ?_, fun _ _ => .refl w⟩
  rw [wp_bind]
  exact wp_mono (wp_journaled _ w) (fun _ _ h => h) fun _ _ h => h

theorem wp_issue (template : WitnessRecord) (proof : AuthorizedRequest) (w : World) :
    wp (auth.issue sha256 m template proof)
      (fun permit w' => permit.proof = proof ∧ permit.operation = auth.operation m ∧ SameBut w w')
      (fun _ w' => SameBut w w') w := by
  rw [issue, wp_bind]
  exact wp_mono (wp_journaled _ w) (fun _ _ h => ⟨rfl, rfl, h⟩) fun _ _ h => h

theorem wp_refuse (template : WitnessRecord) (denial : Denial) (w : World) :
    wp (auth.refuse sha256 m template denial) (fun _ _ => False) (fun _ w' => SameBut w w') w := by
  rw [refuse, wp_bind]
  exact wp_mono (wp_journaled _ w) (fun _ _ h => h) fun _ _ h => h

theorem consume_spec (authority : EmergencyAuthority) (m : Moment) (action : Action)
    (resource : String) (generation : UInt64) (principal : ResolvedPrincipal)
    (policyDigest : Digest) (operationId : Id) (w : World) :
    let r := authority.consume m action resource generation principal policyDigest operationId w
    r.2.admitted = w.admitted ∧ (w.consumed = true → r.2.consumed = true) ∧
      (r.1 = true → w.consumed = false ∧ r.2.consumed = true ∧
        authority.Covers action resource generation principal policyDigest operationId) := by
  dsimp only [EmergencyAuthority.consume]
  split
  · exact ⟨rfl, id, fun h => nomatch h⟩
  next hscope =>
    simp only [not_or, not_not, ne_eq] at hscope
    obtain ⟨haction, hresource, hgeneration, hprincipal, hdigest, hoperation, -⟩ := hscope
    refine ⟨rfl, fun _ => rfl, fun h => ⟨by simpa using h, rfl, ?_⟩⟩
    exact ⟨haction, hresource, hgeneration, hprincipal, hdigest, hoperation⟩

theorem emergencyOverride_spec (auth : RuntimeAuthorization ed) (m : Moment) (action : Action)
    (record : ContainerRecord) (request : CanonicalRequest) (w : World) :
    let r := auth.emergencyOverride m action record request w
    r.2.admitted = w.admitted ∧ (w.consumed = true → r.2.consumed = true) ∧
      (r.1 = true → policyWouldDeny request = .ok true ∧
        Consumed auth action record m.pin.digest (auth.operation m) w r.2) := by
  dsimp only [emergencyOverride]
  split
  next hdeny =>
    cases hemergency : auth.emergency with
    | none => exact ⟨rfl, id, fun h => nomatch h⟩
    | some authority =>
      cases horigin : auth.origin with
      | none => exact ⟨rfl, id, fun h => nomatch h⟩
      | some origin =>
        obtain ⟨hadmitted, hmono, hconsumed⟩ := consume_spec authority m action record.id
          record.generation origin.principal m.pin.digest (auth.operation m) w
        refine ⟨hadmitted, hmono, fun h => ⟨hdeny, ?_⟩⟩
        obtain ⟨hbefore, hafter, hcovers⟩ := hconsumed h
        exact ⟨hbefore, hafter, authority, hemergency, origin, horigin, hcovers⟩
  · exact ⟨rfl, id, fun h => nomatch h⟩

theorem wp_askGate (w : World) :
    wp (auth.askGate sha256 m action)
      (fun _ w' => w'.consumed = w.consumed ∧ w'.admitted
        = if auth.emergency.isSome ∧ isEmergencyAction action then w.admitted
          else w.admitted ++ [action])
      (fun _ w' => SameBut w w') w := by
  unfold wp askGate
  by_cases hemergency : auth.emergency.isSome ∧ isEmergencyAction action
  · rw [if_pos hemergency]
    exact ⟨rfl, (if_pos hemergency).symm⟩
  · rw [if_neg hemergency]
    by_cases hadmits : admits sha256 auth.admission m.files action
    · rw [if_pos hadmits]
      exact ⟨rfl, (if_neg hemergency).symm⟩
    · rw [if_neg hadmits]
      exact .refl w

def Allows (sha256 : Hasher) (auth : RuntimeAuthorization ed) (m : Moment)
    (action : Action) (record : ContainerRecord) (run : Option RunSecurityFacts) : Bool :=
  (evaluate m.pin.document (auth.requestContext sha256 m action record (run.getD .none)
    (lifecycleState record.status))).allowed

structure Issues (sha256 : Hasher) (auth : RuntimeAuthorization ed) (m : Moment)
    (action : Action) (record : ContainerRecord) (run : Option RunSecurityFacts)
    (w : World) (permit : MutationPermit) (w' : World) : Prop where
  admitted : w'.admitted = if auth.emergency.isSome ∧ isEmergencyAction action then w.admitted
    else w.admitted ++ [action]
  reason : (permit.proof.decision.reason = .emergencyOverride ∧
      auth.Allows sha256 m action record run = false ∧
      Consumed auth action record permit.proof.canonical.policyDigest permit.operation w w') ∨
    (permit.proof.decision.reason ≠ .emergencyOverride ∧
      auth.Allows sha256 m action record run = true)
  consumed : w.consumed = true → w'.consumed = true

theorem wp_decide {run : Option RunSecurityFacts} {w w₁ : World} {state : ResourceState}
    (template : WitnessRecord) (hstate : lifecycleState record.status = some state)
    (hconsumed : w₁.consumed = w.consumed)
    (hadmitted : w₁.admitted = if auth.emergency.isSome ∧ isEmergencyAction action
      then w.admitted else w.admitted ++ [action]) :
    let request := auth.canonicalRequest sha256 m action record (run.getD .none) (some state)
    let overridden := auth.emergencyOverride m action record request w₁
    wp (match if overridden.1 then Gate.authorizeEmergency request else Gate.authorize request with
        | .ok proof => auth.issue sha256 m template proof
        | .error denial => auth.refuse sha256 m template denial)
      (Issues sha256 auth m action record run w)
      (fun _ w' => w.consumed = true → w'.consumed = true) overridden.2 := by
  intro request overridden
  obtain ⟨hkept, hmono, hoverride⟩ := emergencyOverride_spec auth m action record request w₁
  have hallows : auth.Allows sha256 m action record run
      = (evaluate request.policy.document request.context).allowed := by
    rw [Allows, hstate]
    rfl
  have hconsumes : w.consumed = true → overridden.2.consumed = true :=
    fun h => hmono (hconsumed.trans h)
  cases hverdict : if overridden.1 then Gate.authorizeEmergency request
      else Gate.authorize request with
  | error denial =>
    exact wp_mono (wp_refuse template denial _) (fun _ _ h => h.elim)
      fun _ _ h hw => h.consumed.trans (hconsumes hw)
  | ok proof =>
    refine wp_mono (wp_issue template proof _) (fun permit w' h => ?_)
      fun _ _ h hw => h.consumed.trans (hconsumes hw)
    obtain ⟨hproof, hoperation, hsame⟩ := h
    refine ⟨(hsame.admitted.trans hkept).trans hadmitted, ?_,
      fun hw => hsame.consumed.trans (hconsumes hw)⟩
    cases hb : overridden.1 with
    | true =>
      rw [hb, if_pos rfl] at hverdict
      obtain ⟨hcanonical, hreason⟩ := authorizeEmergency_eq_ok hverdict
      obtain ⟨hdeny, hbefore, hafter, hcovers⟩ := hoverride hb
      refine .inl ⟨hproof ▸ hreason, ?_, hconsumed ▸ hbefore, hsame.consumed.trans hafter, ?_⟩
      · rw [hallows]
        simpa using policyWouldDeny_eq_ok hdeny
      · rw [hproof, hcanonical, hoperation]
        exact hcovers
    | false =>
      rw [hb, if_neg Bool.false_ne_true] at hverdict
      obtain ⟨hdecision, hallowed⟩ := authorize_eq_ok hverdict
      refine .inr ⟨?_, hallows.trans hallowed⟩
      rw [hproof, hdecision]
      exact evaluate_reason _ _

theorem authorizeWithFacts_spec (sha256 : Hasher)
    (serialise : RequestContext → Option Bytes) (auth : RuntimeAuthorization ed) (m : Moment)
    (action : Action) (record : ContainerRecord) (run : Option RunSecurityFacts) (w : World) :
    wp (auth.authorizeWithFacts sha256 serialise m action record run)
      (Issues sha256 auth m action record run w)
      (fun _ w' => w.consumed = true → w'.consumed = true) w := by
  rw [authorizeWithFacts, wp_bind]
  refine wp_mono (wp_askGate w) (fun _ w₁ h => ?_) fun _ _ h hw => h.consumed.trans hw
  obtain ⟨hconsumed, hadmitted⟩ := h
  have hkeep : w.consumed = true → w₁.consumed = true := hconsumed.trans
  rw [wp_bind, wp_okOr]
  refine ⟨fun state hstate => ?_, fun _ => hkeep⟩
  rw [wp_bind, wp_rejectIf]
  refine ⟨fun _ => hkeep, fun _ => ?_⟩
  rw [wp_bind, wp_rejectIf]
  refine ⟨fun _ => hkeep, fun _ => ?_⟩
  rw [wp_bind, wp_ofExcept]
  refine ⟨fun _ _ => ?_, fun _ _ => hkeep⟩
  dsimp only
  rw [wp_bind, wp_ofExcept]
  refine ⟨fun template _ => ?_, fun _ _ => hkeep⟩
  rw [wp_bind]
  refine wp_mono (wp_receive template w₁) (fun _ w₂ h => ?_)
    fun _ _ h hw => h.consumed.trans (hkeep hw)
  rw [wp_bind]
  exact wp_decide template hstate (h.consumed.trans hconsumed) (h.admitted.trans hadmitted)

end RuntimeAuthorization
end Specification

/-! Runs of calls. -/

structure Step where
  call : Call
  before : World
  result : Except MediationError MutationPermit
  after : World

def Step.overrides (s : Step) : Bool :=
  s.result.toOption.any fun permit => permit.proof.decision.reason = .emergencyOverride

section Runs
variable (sha256 : Hasher) (serialise : RequestContext → Option Bytes) {ed : Ed25519}
variable (auth : RuntimeAuthorization ed)

def Call.target (c : Call) : RuntimeAuthorization ed :=
  c.copy.elim auth auth.withOrigin

def Call.step (w : World) (c : Call) : Step :=
  let r := (c.target auth).authorizeWithFacts sha256 serialise c.moment c.action c.record c.run w
  ⟨c, w, r.1, r.2⟩

def runCalls : World → List Call → List Step
  | _, [] => []
  | w, c :: cs =>
    c.step sha256 serialise auth w :: runCalls (c.step sha256 serialise auth w).after cs

def Step.Mediated (s : Step) : Prop :=
  ∀ permit, s.result = .ok permit → s.after.admitted = s.before.admitted ++ [s.call.action] ∨
    permit.proof.decision.reason = .emergencyOverride ∧
      Consumed (s.call.target auth) s.call.action s.call.record
        permit.proof.canonical.policyDigest permit.operation s.before s.after

/-- No authority is attached that may be about the action, or the policy does not allow it. -/
def Call.Guarded (c : Call) : Prop :=
  auth.emergency = none ∨ isEmergencyAction c.action = false ∨
    (c.target auth).Allows sha256 c.moment c.action c.record c.run = false

instance (c : Call) : Decidable (c.Guarded sha256 auth) := by
  unfold Call.Guarded
  have : Decidable (auth.emergency = none) := decidable_of_iff _ Option.isNone_iff_eq_none
  infer_instance

variable {sha256 serialise auth}

theorem Call.target_emergency (auth : RuntimeAuthorization ed) (c : Call) :
    (c.target auth).emergency = auth.emergency := by
  cases h : c.copy <;> rw [target, h] <;> rfl

variable {w : World} {c : Call} {permit : MutationPermit}

theorem Call.step_issues
    (h : (c.step sha256 serialise auth w).result = .ok permit) :
    (c.target auth).Issues sha256 c.moment c.action c.record c.run w permit
      (c.step sha256 serialise auth w).after := by
  have hspec := RuntimeAuthorization.authorizeWithFacts_spec sha256 serialise (c.target auth)
    c.moment c.action c.record c.run w
  unfold wp at hspec
  rw [step] at h ⊢
  cases hrun : (c.target auth).authorizeWithFacts sha256 serialise c.moment c.action c.record
      c.run w with
  | mk r w' =>
    rw [hrun] at h hspec
    dsimp only at h hspec ⊢
    rw [h] at hspec
    exact hspec

theorem Call.step_consumed (h : w.consumed = true) :
    (c.step sha256 serialise auth w).after.consumed = true := by
  have hspec := RuntimeAuthorization.authorizeWithFacts_spec sha256 serialise (c.target auth)
    c.moment c.action c.record c.run w
  unfold wp at hspec
  rw [step]
  cases hrun : (c.target auth).authorizeWithFacts sha256 serialise c.moment c.action c.record
      c.run w with
  | mk r w' =>
    rw [hrun] at hspec
    cases r with
    | ok permit => exact hspec.consumed h
    | error e => exact hspec h

theorem Call.step_mediated_iff
    (h : (c.step sha256 serialise auth w).result = .ok permit) :
    (c.step sha256 serialise auth w).Mediated auth ↔ c.Guarded sha256 auth := by
  have hissues := step_issues h
  have hemergency := c.target_emergency auth
  constructor
  · intro hmediated
    by_contra hguarded
    simp only [Guarded, not_or, Bool.not_eq_false] at hguarded
    obtain ⟨hattached, haction, hallows⟩ := hguarded
    have hadmitted := hissues.admitted
    rw [hemergency, if_pos ⟨Option.isSome_iff_ne_none.mpr hattached, haction⟩] at hadmitted
    obtain hasked | ⟨hreason, -⟩ := hmediated permit h
    · have hlength := congrArg List.length (hadmitted.symm.trans hasked)
      simp [step] at hlength
    · obtain ⟨-, hdenied, -⟩ | ⟨hplain, -⟩ := hissues.reason
      · exact Bool.false_ne_true (hdenied.symm.trans hallows)
      · exact hplain hreason
  · intro hguarded p hp
    rw [h] at hp
    cases hp
    obtain ⟨hreason, -, hconsumed⟩ | ⟨-, hallows⟩ := hissues.reason
    · exact .inr ⟨hreason, hconsumed⟩
    · refine .inl (hissues.admitted.trans (if_neg ?_))
      rintro ⟨hattached, haction⟩
      rw [hemergency] at hattached
      obtain hnone | hother | hdenied := hguarded
      · rw [hnone] at hattached
        cases hattached
      · exact Bool.false_ne_true (hother.symm.trans haction)
      · exact Bool.false_ne_true (hdenied.symm.trans hallows)

theorem exists_step {s : Step} {cs : List Call}
    (h : s ∈ runCalls sha256 serialise auth w cs) :
    ∃ c ∈ cs, ∃ w', s = c.step sha256 serialise auth w' := by
  induction cs generalizing w with
  | nil => cases h
  | cons c cs ih =>
    cases List.mem_cons.mp h with
    | inl hhead => exact ⟨c, List.mem_cons_self .., w, hhead⟩
    | inr htail =>
      obtain ⟨c', hc', w', hs⟩ := ih htail
      exact ⟨c', List.mem_cons_of_mem _ hc', w', hs⟩

theorem Call.step_overrides
    (h : (c.step sha256 serialise auth w).overrides = true) :
    w.consumed = false ∧ (c.step sha256 serialise auth w).after.consumed = true := by
  cases hresult : (c.step sha256 serialise auth w).result with
  | error e =>
    rw [Step.overrides, hresult] at h
    cases h
  | ok permit =>
    rw [Step.overrides, hresult] at h
    obtain ⟨-, -, hconsumed⟩ | ⟨hplain, -⟩ := (step_issues hresult).reason
    · exact ⟨hconsumed.before, hconsumed.after⟩
    · exact absurd (of_decide_eq_true h) hplain

theorem overrides_le (w : World) (cs : List Call) :
    ((runCalls sha256 serialise auth w cs).filter Step.overrides).length
      ≤ if w.consumed then 0 else 1 := by
  induction cs generalizing w with
  | nil => exact Nat.zero_le _
  | cons c cs ih =>
    rw [runCalls, List.filter_cons]
    have hrest := ih (c.step sha256 serialise auth w).after
    split
    next hover =>
      obtain ⟨hbefore, hafter⟩ := Call.step_overrides hover
      rw [hafter, if_pos rfl] at hrest
      rw [hbefore, if_neg Bool.false_ne_true, List.length_cons]
      omega
    · cases hw : w.consumed with
      | true =>
        rw [Call.step_consumed hw] at hrest
        exact hrest
      | false =>
        refine hrest.trans ?_
        split <;> decide

/-- The admission is bypassed for a permit exactly where an authority that may be about the action
is attached and the policy allows it anyway; and an authority is good for one permit. -/
theorem admission_bypass (sha256 : Hasher) (serialise : RequestContext → Option Bytes)
    (auth : RuntimeAuthorization ed) (w : World) (cs : List Call) :
    ((∀ c ∈ cs, c.Guarded sha256 auth) →
      ∀ s ∈ runCalls sha256 serialise auth w cs, s.Mediated auth) ∧
    (∀ s ∈ runCalls sha256 serialise auth w cs, s.result.isOk = true →
      (s.Mediated auth ↔ s.call.Guarded sha256 auth)) ∧
    ((runCalls sha256 serialise auth w cs).filter Step.overrides).length ≤ 1 := by
  refine ⟨fun hguarded s hs => ?_, fun s hs hok => ?_, ?_⟩
  · obtain ⟨c, hc, w', rfl⟩ := exists_step hs
    intro permit hpermit
    exact (Call.step_mediated_iff hpermit).mpr (hguarded c hc) permit hpermit
  · obtain ⟨c, hc, w', rfl⟩ := exists_step hs
    cases hresult : (c.step sha256 serialise auth w').result with
    | error e =>
      rw [hresult] at hok
      cases hok
    | ok permit => exact Call.step_mediated_iff hresult
  · refine (overrides_le w cs).trans ?_
    split <;> decide

end Runs

/-! An authority for one stop, on a gate whose checkpoint is missing. -/

def contextJson (context : RequestContext) : Option Bytes :=
  let principal := match context.principal with
    | none => "null"
    | some principal => "\x7b\"id\":\"" ++ principal.id ++ "\",\"role\":\"auditor\"\x7d"
  some (utf8 ("\x7b\"request_id\":\"" ++ context.requestId ++ "\",\"principal\":" ++ principal
    ++ ",\"action\":\"" ++ context.action.name
    ++ "\",\"resource\":\x7b\"kind\":\"container\",\"id\":\"" ++ context.resource.id
    ++ "\",\"owner\":null,\"generation\":1\x7d,\"facts\":\x7b\"image_digest\":null"
    ++ ",\"mounts\":[],\"network_ids\":[],\"requested_capabilities\":[],\"privileged\":false"
    ++ ",\"device_classes\":[],\"lifecycle_state\":\"running\",\"readonly_rootfs\":false"
    ++ ",\"no_new_privileges\":false,\"mount_sources_approved\":null"
    ++ ",\"execution_digest\":null,\"parent_resource_id\":null\x7d,\"fanout\":null\x7d"))

def runningRecord (id : String) : ContainerRecord :=
  ⟨id, none, "app", "running", 4242, 1, none⟩

def stopOrigin : RequestOrigin :=
  ⟨⟨"host-auditor", .auditor⟩, .cli, some (.fill 16 8), none, 0, none, false⟩

def stopAuthority : EmergencyAuthority :=
  ⟨.containerStop, "00112233445566778899aabbccddeeff", 1, "boot", 1000, "host-auditor", .fill 32 9,
    .fill 16 8⟩

def staleGate (ed : Ed25519) : RuntimeAuthorization ed where
  admission := some ⟨.timestamp, 30 * 10 ^ 9, 5 * 10 ^ 9⟩
  runtimeId := .fill 16 1
  bootId := .fill 16 2
  pseudonymKey := .fill 32 3
  origin := some stopOrigin
  emergency := some stopAuthority

def staleMoment (mode : AuthorizationMode) : Moment where
  files := ⟨none, ⟨[], [], false, 0⟩, 0⟩
  pin := ⟨1, .fill 32 9, 1, 1, mode⟩
  operationId := .fill 16 4
  eventId := .fill 16 5
  decisionId := .fill 16 6
  transportValid := true
  nowMs := 0
  nowNs := 0
  bootId := some "boot"
  uptimeNs := some 10

/-- Where the policy allows, any container is deleted without admission and without consuming the
authority to stop another one. -/
theorem allowed_unadmitted :
    let c := Call.authorize none (staleMoment .disabled) .containerDelete
      (runningRecord "ffeeddccbbaa99887766554433221100")
    let s := c.step Sha256.sha256 contextJson (staleGate (.recorded (.zero 32) [])) ⟨none, false, []⟩
    s.result.isOk = true ∧ s.after.admitted = [] ∧ s.after.consumed = false ∧
      ¬s.Mediated (staleGate (.recorded (.zero 32) [])) := by
  intro c s
  have hok : s.result.isOk = true := by decide +kernel
  have hadmitted : s.after.admitted = [] := by decide +kernel
  have hconsumed : s.after.consumed = false := by decide +kernel
  refine ⟨hok, hadmitted, hconsumed, fun hmediated => ?_⟩
  cases hresult : s.result with
  | error e =>
    rw [hresult] at hok
    cases hok
  | ok permit =>
    obtain hasked | ⟨-, hused⟩ := hmediated permit hresult
    · exact List.cons_ne_nil _ _ (hasked.symm.trans hadmitted)
    · exact Bool.false_ne_true (hconsumed.symm.trans hused.after)

/-- Where the policy denies, the authority stops its container once. -/
theorem admission_bypass_emergency :
    let c := Call.authorize none (staleMoment .enforce) .containerStop
      (runningRecord "00112233445566778899aabbccddeeff")
    let run := runCalls Sha256.sha256 contextJson (staleGate (.recorded (.zero 32) []))
      ⟨none, false, []⟩ [c, c]
    run.map (·.result.isOk) = [true, false] ∧
      ∀ s ∈ run, s.Mediated (staleGate (.recorded (.zero 32) [])) := by
  intro c run
  refine ⟨by decide +kernel, (admission_bypass Sha256.sha256 contextJson
    (staleGate (.recorded (.zero 32) [])) ⟨none, false, []⟩ [c, c]).1 fun c' hc' => ?_⟩
  have hguarded : c.Guarded Sha256.sha256 (staleGate (.recorded (.zero 32) [])) := by
    decide +kernel
  simp only [List.mem_cons, List.not_mem_nil, or_false, or_self] at hc'
  exact hc' ▸ hguarded

end Ferrocrate.Authorization.Gate

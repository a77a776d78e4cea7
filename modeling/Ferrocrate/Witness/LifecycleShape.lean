import Ferrocrate.Witness.Lifecycle

/-! The record sequences a request can leave behind. The automaton of a request closes on
exactly three shapes, and is open on exactly their proper, non-empty prefixes. -/
namespace Ferrocrate.Witness
open Lib

structure SameRequest (received : ParsedRecord) (decisionId : Id) (rest : List ParsedRecord) :
    Prop where
  binding : ∀ r ∈ rest, RequestBinding.ofRecord r = RequestBinding.ofRecord received
  decision : ∀ r ∈ rest, r.decisionId = some decisionId

inductive CompletedAs : Terminal → List ParsedRecord → Prop
  | outcome {received decision outcome : ParsedRecord} {decisionId : Id}
      (receivedStage : received.stage = .requestReceived)
      (decisionStage : decision.stage = .decision) (allowed : decision.decision = some true)
      (outcomeStage : outcome.stage = .outcome)
      (known : outcome.outcome = .succeeded ∨ outcome.outcome = .failed)
      (same : SameRequest received decisionId [decision, outcome]) :
      CompletedAs .outcome [received, decision, outcome]
  | recovery {received decision outcome recovery : ParsedRecord} {decisionId : Id}
      (receivedStage : received.stage = .requestReceived)
      (decisionStage : decision.stage = .decision) (allowed : decision.decision = some true)
      (outcomeStage : outcome.stage = .outcome) (unknown : outcome.outcome = .outcomeUnknown)
      (recoveryStage : recovery.stage = .recovery)
      (link : recovery.recoveryLink = some outcome.eventId)
      (same : SameRequest received decisionId [decision, outcome, recovery]) :
      CompletedAs .recovery [received, decision, outcome, recovery]
  | denied {received decision denied : ParsedRecord} {decisionId : Id}
      (receivedStage : received.stage = .requestReceived)
      (decisionStage : decision.stage = .decision) (answer : decision.decision = some false)
      (deniedStage : denied.stage = .denied)
      (same : SameRequest received decisionId [decision, denied]) :
      CompletedAs .denied [received, decision, denied]

variable {rs : List ParsedRecord}

theorem CompletedAs.not_published {kind : Terminal}
    (h : CompletedAs kind rs) : rs.all (fun r => r.stage ≠ .checkpointPublished) = true := by
  cases h <;> simp_all

inductive LeadsTo : Phase → List ParsedRecord → Prop
  | idle : LeadsTo .idle []
  | received {r : ParsedRecord} (stage : r.stage = .requestReceived) :
      LeadsTo (.active (.received (.ofRecord r))) [r]
  | allowed {received decision : ParsedRecord} {decisionId : Id}
      (receivedStage : received.stage = .requestReceived)
      (decisionStage : decision.stage = .decision) (allowed : decision.decision = some true)
      (same : SameRequest received decisionId [decision]) :
      LeadsTo (.active (.allowed (.ofRecord received) decisionId)) [received, decision]
  | refused {received decision : ParsedRecord} {decisionId : Id}
      (receivedStage : received.stage = .requestReceived)
      (decisionStage : decision.stage = .decision) (answer : decision.decision = some false)
      (same : SameRequest received decisionId [decision]) :
      LeadsTo (.active (.deniedDecision (.ofRecord received) decisionId)) [received, decision]
  | unknown {received decision outcome : ParsedRecord} {decisionId : Id}
      (receivedStage : received.stage = .requestReceived)
      (decisionStage : decision.stage = .decision) (allowed : decision.decision = some true)
      (outcomeStage : outcome.stage = .outcome) (unknown : outcome.outcome = .outcomeUnknown)
      (same : SameRequest received decisionId [decision, outcome]) :
      LeadsTo (.active (.unknown (.ofRecord received) decisionId outcome.eventId))
        [received, decision, outcome]
  | closed {kind : Terminal} {rs : List ParsedRecord} (complete : CompletedAs kind rs) :
      LeadsTo (.closed kind) rs

variable {r : ParsedRecord}

theorem sameBinding_iff {binding : RequestBinding} :
    sameBinding r binding = true ↔ RequestBinding.ofRecord r = binding := by
  simp [sameBinding]

theorem sameRequest_append {received r : ParsedRecord} {decisionId : Id}
    {rest : List ParsedRecord} :
    SameRequest received decisionId (rest ++ [r]) ↔ SameRequest received decisionId rest ∧
      RequestBinding.ofRecord r = .ofRecord received ∧ r.decisionId = some decisionId := by
  constructor
  · intro h
    exact ⟨⟨fun x hx => h.binding x (List.mem_append_left _ hx),
      fun x hx => h.decision x (List.mem_append_left _ hx)⟩, h.binding r (by simp),
      h.decision r (by simp)⟩
  · rintro ⟨h, hb, hd⟩
    constructor <;> intro x hx <;> rcases List.mem_append.mp hx with hx | hx
    · exact h.binding x hx
    · rw [List.mem_singleton.mp hx, hb]
    · exact h.decision x hx
    · rw [List.mem_singleton.mp hx, hd]

theorem sameRequest_nil (received : ParsedRecord) (decisionId : Id) :
    SameRequest received decisionId [] := ⟨by simp, by simp⟩

theorem decision_answers (hv : validRecord r = true) (hs : r.stage = .decision) :
    r.decision = some true ∨ r.decision = some false := by
  cases hd : r.decision with
  | none => simp [validRecord, hs, hd] at hv
  | some b => cases b <;> simp

theorem outcome_known (hv : validRecord r = true) (hs : r.stage = .outcome)
    (hu : r.outcome ≠ .outcomeUnknown) : r.outcome = .succeeded ∨ r.outcome = .failed := by
  cases ho : r.outcome <;> simp_all [validRecord]

theorem advance_leadsTo {p p' : Phase}
    (h : LeadsTo p rs) (hs : r.stage ≠ .checkpointPublished) (hv : validRecord r = true)
    (ha : p.advance r = some p') : LeadsTo p' (rs ++ [r]) := by
  cases h with
  | idle =>
    cases hstage : r.stage <;> simp_all [Phase.advance]
    subst ha
    exact .received hstage
  | @received received stage =>
    cases hstage : r.stage <;> simp_all [Phase.advance]
    cases hd : r.decisionId with
    | none => simp [hd] at ha
    | some decisionId =>
      simp only [hd, sameBinding_iff, Option.ite_none_right_eq_some, Option.some.injEq] at ha
      obtain ⟨hb, rfl⟩ := ha
      have same : SameRequest received decisionId [r] :=
        sameRequest_append.mpr ⟨sameRequest_nil _ _, hb, hd⟩
      rcases decision_answers hv hstage with hans | hans
      · rw [if_pos hans]
        exact .allowed stage hstage hans same
      · rw [if_neg (by simp [hans])]
        exact .refused stage hstage hans same
  | @allowed received decision decisionId receivedStage decisionStage allowed same =>
    cases hstage : r.stage <;> simp_all [Phase.advance]
    obtain ⟨⟨hb, hd⟩, rfl⟩ := ha
    have same' := sameRequest_append.mpr ⟨same, sameBinding_iff.mp hb, hd⟩
    by_cases hu : r.outcome = .outcomeUnknown
    · rw [if_pos hu]
      exact .unknown receivedStage decisionStage allowed hstage hu same'
    · rw [if_neg hu]
      exact .closed (.outcome receivedStage decisionStage allowed hstage
        (outcome_known hv hstage hu) same')
  | @refused received decision decisionId receivedStage decisionStage answer same =>
    cases hstage : r.stage <;> simp_all [Phase.advance]
    obtain ⟨⟨hb, hd⟩, rfl⟩ := ha
    exact .closed (.denied receivedStage decisionStage answer hstage
      (sameRequest_append.mpr ⟨same, sameBinding_iff.mp hb, hd⟩))
  | @unknown received decision outcome decisionId receivedStage decisionStage allowed outcomeStage
      unknown same =>
    cases hstage : r.stage <;> simp_all [Phase.advance]
    obtain ⟨⟨hb, hd, hl⟩, rfl⟩ := ha
    exact .closed (.recovery receivedStage decisionStage allowed outcomeStage unknown hstage hl
      (sameRequest_append.mpr ⟨same, sameBinding_iff.mp hb, hd⟩))
  | closed complete =>
    cases hstage : r.stage <;> simp_all [Phase.advance]

variable {p : Phase}

theorem leadsTo_of_runPhase
    (hs : ∀ r ∈ rs, r.stage ≠ .checkpointPublished) (hv : ∀ r ∈ rs, validRecord r = true) (h : runPhase rs = some p) : LeadsTo p rs := by
  induction rs using List.reverseRecOn generalizing p with
  | nil =>
    cases h
    exact .idle
  | append_singleton rs r ih =>
    rw [runPhase_append_singleton, Option.bind_eq_some_iff] at h
    obtain ⟨q, hq, ha⟩ := h
    exact advance_leadsTo
      (ih (fun x hx => hs x (List.mem_append_left _ hx))
        (fun x hx => hv x (List.mem_append_left _ hx)) hq)
      (hs r (by simp)) (hv r (by simp)) ha

theorem LeadsTo.runPhase_eq (h : LeadsTo p rs) :
    runPhase rs = some p := by
  have binding : ∀ {r received : ParsedRecord} {decisionId : Id} {rest : List ParsedRecord},
      SameRequest received decisionId rest → r ∈ rest →
      sameBinding r (.ofRecord received) = true ∧ r.decisionId = some decisionId :=
    fun same hr => ⟨sameBinding_iff.mpr (same.binding _ hr), same.decision _ hr⟩
  cases h with
  | idle => rfl
  | received stage => simp [runPhase, Phase.advance, stage]
  | allowed receivedStage decisionStage allowed same =>
    obtain ⟨hb, hd⟩ := binding same List.mem_cons_self
    simp [runPhase, Phase.advance, receivedStage, decisionStage, allowed, hb, hd]
  | refused receivedStage decisionStage answer same =>
    obtain ⟨hb, hd⟩ := binding same List.mem_cons_self
    simp [runPhase, Phase.advance, receivedStage, decisionStage, answer, hb, hd]
  | unknown receivedStage decisionStage allowed outcomeStage unknown same =>
    obtain ⟨hb, hd⟩ := binding same List.mem_cons_self
    obtain ⟨hb', hd'⟩ := binding same (List.mem_cons_of_mem _ List.mem_cons_self)
    simp [runPhase, Phase.advance, receivedStage, decisionStage, allowed, hb, hd, outcomeStage,
      unknown, hb', hd']
  | closed complete =>
    cases complete with
    | outcome receivedStage decisionStage allowed outcomeStage known same =>
      obtain ⟨hb, hd⟩ := binding same List.mem_cons_self
      obtain ⟨hb', hd'⟩ := binding same (List.mem_cons_of_mem _ List.mem_cons_self)
      rcases known with known | known <;>
        simp [runPhase, Phase.advance, receivedStage, decisionStage, allowed, hb, hd,
          outcomeStage, known, hb', hd']
    | @recovery _ _ _ recovery _ receivedStage decisionStage allowed outcomeStage unknown
        recoveryStage link same =>
      obtain ⟨hb, hd⟩ := binding same List.mem_cons_self
      obtain ⟨hb', hd'⟩ := binding same (List.mem_cons_of_mem _ List.mem_cons_self)
      obtain ⟨hb'', hd''⟩ := binding (r := recovery) same (by simp)
      simp [runPhase, Phase.advance, receivedStage, decisionStage, allowed, hb, hd, outcomeStage,
        unknown, hb', hd', recoveryStage, link, hb'', hd'']
    | denied receivedStage decisionStage answer deniedStage same =>
      obtain ⟨hb, hd⟩ := binding same List.mem_cons_self
      obtain ⟨hb', hd'⟩ := binding same (List.mem_cons_of_mem _ List.mem_cons_self)
      simp [runPhase, Phase.advance, receivedStage, decisionStage, answer, hb, hd, deniedStage,
        hb', hd']

def lifecycleOf (id : Id) (rs : List ParsedRecord) : List ParsedRecord :=
  rs.filter fun r => r.requestId = id ∧ r.stage ≠ .checkpointPublished

theorem runPhase_filter (rs : List ParsedRecord) :
    runPhase (rs.filter fun r => r.stage ≠ .checkpointPublished) = runPhase rs := by
  induction rs using List.reverseRecOn with
  | nil => rfl
  | append_singleton rs r ih =>
    rw [List.filter_append, runPhase_append_singleton, ← ih]
    by_cases hs : r.stage = .checkpointPublished
    · have hadv : ∀ p : Phase, p.advance r = some p := by
        intro p
        cases p <;> simp [Phase.advance, hs]
      simp [hs, hadv]
    · rw [List.filter_singleton]
      simp only [hs, ne_eq, not_false_iff, decide_true, cond_true]
      exact runPhase_append_singleton _ r

theorem phaseOf_eq_runPhase (id : Id) (rs : List ParsedRecord) :
    phaseOf id rs = runPhase (lifecycleOf id rs) := by
  rw [phaseOf, ofRequest, ← runPhase_filter, List.filter_filter, lifecycleOf]
  congr 1
  apply List.filter_congr
  intro r _
  simp [and_comm]

theorem phaseOf_eq_some_iff {id : Id}
    (hv : ∀ r ∈ rs, validRecord r = true) :
    phaseOf id rs = some p ↔ LeadsTo p (lifecycleOf id rs) := by
  rw [phaseOf_eq_runPhase]
  constructor
  · intro h
    refine leadsTo_of_runPhase ?_ (fun r hr => hv r (List.mem_of_mem_filter hr)) h
    intro r hr
    have := (List.mem_filter.mp hr).2
    simp only [decide_eq_true_eq] at this
    exact this.2
  · exact LeadsTo.runPhase_eq

theorem leadsTo_idle_iff : LeadsTo .idle rs ↔ rs = [] := by
  constructor
  · intro h
    cases h
    rfl
  · rintro rfl
    exact .idle

theorem leadsTo_closed_iff {kind : Terminal} :
    LeadsTo (.closed kind) rs ↔ CompletedAs kind rs := by
  constructor
  · intro h
    cases h
    assumption
  · exact .closed

def endsLifecycle (r : ParsedRecord) : Bool :=
  r.stage = .denied ∨ r.stage = .recovery ∨ (r.stage = .outcome ∧ r.outcome ≠ .outcomeUnknown)

def openRequests (rs : List ParsedRecord) : Finset Id :=
  ((rs.filter fun r => r.stage = .requestReceived).map WitnessRecord.requestId).toFinset \
    ((rs.filter endsLifecycle).map WitnessRecord.requestId).toFinset

theorem mem_openRequests {id : Id} :
    id ∈ openRequests rs ↔ (∃ r ∈ lifecycleOf id rs, r.stage = .requestReceived) ∧
      ∀ r ∈ lifecycleOf id rs, endsLifecycle r = false := by
  simp only [openRequests, Finset.mem_sdiff, List.mem_toFinset, List.mem_map, List.mem_filter,
    lifecycleOf, decide_eq_true_eq, not_exists, not_and]
  constructor
  · rintro ⟨⟨r, ⟨hr, hs⟩, hid⟩, hends⟩
    refine ⟨⟨r, ⟨hr, hid, by simp [hs]⟩, hs⟩, ?_⟩
    rintro x ⟨hx, hxid, -⟩
    exact Bool.eq_false_iff.mpr fun he => hends x ⟨hx, he⟩ hxid
  · rintro ⟨⟨r, ⟨hr, hid, -⟩, hs⟩, hends⟩
    refine ⟨⟨r, ⟨hr, hs⟩, hid⟩, ?_⟩
    rintro x ⟨hx, he⟩ hxid
    have hstage : x.stage ≠ .checkpointPublished := by
      intro hs
      simp [endsLifecycle, hs] at he
    rw [hends x ⟨hx, hxid, hstage⟩] at he
    cases he

theorem mem_openRequests_iff {id : Id}
    (h : LeadsTo p (lifecycleOf id rs)) : id ∈ openRequests rs ↔ p.open?.isSome = true := by
  rw [mem_openRequests]
  generalize lifecycleOf id rs = own at h
  cases h with
  | idle => simp [Phase.open?]
  | received stage => simp [Phase.open?, stage, endsLifecycle]
  | allowed receivedStage decisionStage _ _ =>
    simp [Phase.open?, receivedStage, decisionStage, endsLifecycle]
  | refused receivedStage decisionStage _ _ =>
    simp [Phase.open?, receivedStage, decisionStage, endsLifecycle]
  | unknown receivedStage decisionStage _ outcomeStage unknown _ =>
    simp [Phase.open?, receivedStage, decisionStage, outcomeStage, unknown, endsLifecycle]
  | closed complete =>
    cases complete with
    | outcome _ _ _ outcomeStage known _ =>
      rcases known with known | known <;> simp [Phase.open?, outcomeStage, known, endsLifecycle]
    | recovery _ _ _ _ _ recoveryStage _ _ => simp [Phase.open?, recoveryStage, endsLifecycle]
    | denied _ _ _ deniedStage _ => simp [Phase.open?, deniedStage, endsLifecycle]

end Ferrocrate.Witness

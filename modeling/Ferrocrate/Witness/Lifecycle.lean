import Ferrocrate.Lib.HashChain
import Ferrocrate.Witness.Verify

/-! Request lifecycles seen one request at a time. The verifier threads all of them through
one map; for each request it runs the small automaton below on the request's own records. -/
namespace Ferrocrate.Witness
open Lib

inductive Terminal where
  | denied | outcome | recovery
deriving DecidableEq

inductive Phase where
  | idle
  | active (lifecycle : Lifecycle)
  | closed (terminal : Terminal)

namespace Phase

def advance : Phase → ParsedRecord → Option Phase
  | p, r =>
    match r.stage, p with
    | .requestReceived, .idle => some (.active (.received (.ofRecord r)))
    | .decision, .active (.received binding) =>
      match r.decisionId with
      | some decisionId =>
        if sameBinding r binding then
          some (.active (if r.decision = some true then .allowed binding decisionId
            else .deniedDecision binding decisionId))
        else none
      | none => none
    | .denied, .active (.deniedDecision binding decisionId) =>
      if sameBinding r binding ∧ r.decisionId = some decisionId then some (.closed .denied) else none
    | .outcome, .active (.allowed binding decisionId) =>
      if sameBinding r binding ∧ r.decisionId = some decisionId then
        some (if r.outcome = .outcomeUnknown then .active (.unknown binding decisionId r.eventId)
          else .closed .outcome)
      else none
    | .recovery, .active (.unknown binding decisionId eventId) =>
      if sameBinding r binding ∧ r.decisionId = some decisionId ∧ r.recoveryLink = some eventId then
        some (.closed .recovery)
      else none
    | .checkpointPublished, p => some p
    | _, _ => none

def open? : Phase → Option Lifecycle
  | .active lifecycle => some lifecycle
  | _ => none

end Phase

def runPhase (rs : List ParsedRecord) : Option Phase := rs.foldlM Phase.advance .idle

def ofRequest (id : Id) (rs : List ParsedRecord) : List ParsedRecord :=
  rs.filter fun r => r.requestId = id

def phaseOf (id : Id) (rs : List ParsedRecord) : Option Phase := runPhase (ofRequest id rs)

theorem runPhase_append_singleton (rs : List ParsedRecord) (r : ParsedRecord) :
    runPhase (rs ++ [r]) = (runPhase rs).bind fun p => p.advance r := by
  rw [runPhase, List.foldlM_append]
  cases h : runPhase rs with
  | none =>
    rw [runPhase] at h
    simp [h]
  | some p =>
    rw [runPhase] at h
    simp [h]

theorem phaseOf_append_self (rs : List ParsedRecord) (r : ParsedRecord) :
    phaseOf r.requestId (rs ++ [r]) = (phaseOf r.requestId rs).bind fun p => p.advance r := by
  rw [phaseOf, ofRequest, List.filter_append, List.filter_singleton]
  simp only [decide_true, cond_true]
  exact runPhase_append_singleton _ r

theorem phaseOf_append_of_ne {id : Id} (rs : List ParsedRecord) {r : ParsedRecord}
    (h : r.requestId ≠ id) : phaseOf id (rs ++ [r]) = phaseOf id rs := by
  rw [phaseOf, ofRequest, List.filter_append, List.filter_singleton]
  simp [h, phaseOf, ofRequest]

structure Tracks (progress : Progress) (phase : Id → Phase) : Prop where
  states : ∀ id, progress.1.get id = (phase id).open?
  requestIds : ∀ id, id ∈ progress.2.1 ↔ phase id ≠ .idle

namespace Tracks
variable {states : Tree Id Lifecycle} {ids : Finset Id} {report : VerificationReport}
  {phase : Id → Phase}

theorem opened (h : Tracks (states, ids, report) phase) (id : Id) (lifecycle : Lifecycle)
    (report' : VerificationReport) :
    Tracks (states.put id lifecycle, insert id ids, report')
      (Function.update phase id (.active lifecycle)) where
  states := by
    intro k
    by_cases hk : k = id
    · subst hk
      simp [Phase.open?]
    · rw [Function.update_of_ne hk]
      exact (Tree.get_put_of_ne _ _ hk).trans (h.states k)
  requestIds := by
    intro k
    by_cases hk : k = id
    · subst hk
      simp
    · simpa [hk] using h.requestIds k

theorem moved (h : Tracks (states, ids, report) phase) {id : Id} (hid : phase id ≠ .idle)
    (lifecycle : Lifecycle) (report' : VerificationReport) :
    Tracks ((states.remove id).put id lifecycle, ids, report')
      (Function.update phase id (.active lifecycle)) where
  states := by
    intro k
    by_cases hk : k = id
    · subst hk
      simp [Phase.open?]
    · rw [Function.update_of_ne hk]
      exact (Tree.get_put_of_ne _ _ hk).trans ((Tree.get_remove_of_ne _ hk).trans (h.states k))
  requestIds := by
    intro k
    by_cases hk : k = id
    · subst hk
      simpa using (h.requestIds k).mpr hid
    · simpa [hk] using h.requestIds k

theorem ended (h : Tracks (states, ids, report) phase) {id : Id} (hid : phase id ≠ .idle)
    (kind : Terminal) (report' : VerificationReport) :
    Tracks (states.remove id, ids, report') (Function.update phase id (.closed kind)) where
  states := by
    intro k
    by_cases hk : k = id
    · subst hk
      simp [Phase.open?]
    · rw [Function.update_of_ne hk]
      exact (Tree.get_remove_of_ne _ hk).trans (h.states k)
  requestIds := by
    intro k
    by_cases hk : k = id
    · subst hk
      simpa using (h.requestIds k).mpr hid
    · simpa [hk] using h.requestIds k

end Tracks

def VerificationReport.count (report : VerificationReport) : Terminal → VerificationReport
  | .denied => { report with terminalDenied := report.terminalDenied + 1 }
  | .outcome => { report with terminalOutcomes := report.terminalOutcomes + 1 }
  | .recovery => { report with terminalRecoveries := report.terminalRecoveries + 1 }

def VerificationReport.move (report : VerificationReport) : Phase → Phase → VerificationReport
  | .active _, .closed kind => report.count kind
  | _, _ => report

theorem transition_spec {states : Tree Id Lifecycle} {ids : Finset Id} {report : VerificationReport}
    {phase : Id → Phase} (h : Tracks (states, ids, report) phase) (r : ParsedRecord) :
    match (phase r.requestId).advance r with
    | none => ∃ e, transition r (states, ids, report) = .error e
    | some p => ∃ states' ids', transition r (states, ids, report)
        = .ok (states', ids', report.move (phase r.requestId) p) ∧
        Tracks (states', ids', report.move (phase r.requestId) p)
          (Function.update phase r.requestId p) := by
  have hget : states.get r.requestId = (phase r.requestId).open? := h.states r.requestId
  have hmem : r.requestId ∈ ids ↔ phase r.requestId ≠ .idle := h.requestIds r.requestId
  have hactive : ∀ {lifecycle}, phase r.requestId = .active lifecycle →
      phase r.requestId ≠ .idle := by
    intro lifecycle hp
    rw [hp]
    simp
  cases hstage : r.stage with
  | requestReceived =>
    cases hp : phase r.requestId with
    | idle =>
      rw [hp] at hget hmem
      simp only [Phase.advance, transition, hstage]
      have hnot : r.requestId ∉ ids := fun hin => (hmem.mp hin) rfl
      refine ⟨_, _, ?_, h.opened r.requestId _ _⟩
      rw [if_neg]
      · rfl
      · rintro (hin | hin)
        · exact hnot hin
        · rw [hget] at hin
          cases hin
    | active lifecycle =>
      simp only [Phase.advance, transition, hstage]
      exact ⟨_, if_pos (.inl (hmem.mpr (by rw [hp]; simp)))⟩
    | closed kind =>
      simp only [Phase.advance, transition, hstage]
      exact ⟨_, if_pos (.inl (hmem.mpr (by rw [hp]; simp)))⟩
  | decision =>
    cases hp : phase r.requestId with
    | idle => simp [Phase.advance, transition, hstage, hget, hp, Phase.open?]
    | closed kind => simp [Phase.advance, transition, hstage, hget, hp, Phase.open?]
    | active lifecycle =>
      cases lifecycle with
      | received binding =>
        cases hd : r.decisionId with
        | none => simp [Phase.advance, transition, hstage, hget, hp, Phase.open?, hd]
        | some decisionId =>
          by_cases hb : sameBinding r binding = true
          · simp only [Phase.advance, transition, hstage, hget, hp, Phase.open?, hd, hb, if_true]
            exact ⟨_, _, rfl, h.moved (hactive hp) _ _⟩
          · simp [Phase.advance, transition, hstage, hget, hp, Phase.open?, hd, hb]
      | _ => simp [Phase.advance, transition, hstage, hget, hp, Phase.open?]
  | denied =>
    cases hp : phase r.requestId with
    | idle => simp [Phase.advance, transition, hstage, hget, hp, Phase.open?]
    | closed kind => simp [Phase.advance, transition, hstage, hget, hp, Phase.open?]
    | active lifecycle =>
      cases lifecycle with
      | deniedDecision binding decisionId =>
        by_cases hb : sameBinding r binding = true ∧ r.decisionId = some decisionId
        · simp only [Phase.advance, transition, hstage, hget, hp, Phase.open?, if_pos hb]
          exact ⟨_, _, rfl, h.ended (hactive hp) _ _⟩
        · simp only [Phase.advance, transition, hstage, hget, hp, Phase.open?, if_neg hb]
          exact ⟨_, rfl⟩
      | _ => simp [Phase.advance, transition, hstage, hget, hp, Phase.open?]
  | outcome =>
    cases hp : phase r.requestId with
    | idle => simp [Phase.advance, transition, hstage, hget, hp, Phase.open?]
    | closed kind => simp [Phase.advance, transition, hstage, hget, hp, Phase.open?]
    | active lifecycle =>
      cases lifecycle with
      | allowed binding decisionId =>
        by_cases hb : sameBinding r binding = true ∧ r.decisionId = some decisionId
        · by_cases hu : r.outcome = .outcomeUnknown
          · simp only [Phase.advance, transition, hstage, hget, hp, Phase.open?, if_pos hb, if_pos hu]
            exact ⟨_, _, rfl, h.moved (hactive hp) _ _⟩
          · simp only [Phase.advance, transition, hstage, hget, hp, Phase.open?, if_pos hb, if_neg hu]
            exact ⟨_, _, rfl, h.ended (hactive hp) _ _⟩
        · simp only [Phase.advance, transition, hstage, hget, hp, Phase.open?, if_neg hb]
          exact ⟨_, rfl⟩
      | _ => simp [Phase.advance, transition, hstage, hget, hp, Phase.open?]
  | recovery =>
    cases hp : phase r.requestId with
    | idle => simp [Phase.advance, transition, hstage, hget, hp, Phase.open?]
    | closed kind => simp [Phase.advance, transition, hstage, hget, hp, Phase.open?]
    | active lifecycle =>
      cases lifecycle with
      | unknown binding decisionId eventId =>
        by_cases hb : sameBinding r binding = true ∧ r.decisionId = some decisionId
            ∧ r.recoveryLink = some eventId
        · simp only [Phase.advance, transition, hstage, hget, hp, Phase.open?, if_pos hb]
          exact ⟨_, _, rfl, h.ended (hactive hp) _ _⟩
        · simp only [Phase.advance, transition, hstage, hget, hp, Phase.open?, if_neg hb]
          exact ⟨_, rfl⟩
      | _ => simp [Phase.advance, transition, hstage, hget, hp, Phase.open?]
  | checkpointPublished =>
    have hadv : (phase r.requestId).advance r = some (phase r.requestId) := by
      cases phase r.requestId <;> simp [Phase.advance, hstage]
    have hmove : report.move (phase r.requestId) (phase r.requestId) = report := by
      cases phase r.requestId <;> rfl
    rw [hadv]
    refine ⟨states, ids, by simp [transition, hstage, hmove], ?_⟩
    rw [Function.update_eq_self, hmove]
    exact h

end Ferrocrate.Witness

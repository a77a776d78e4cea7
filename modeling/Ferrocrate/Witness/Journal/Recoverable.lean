import Ferrocrate.Witness.Journal.Faultless
import Ferrocrate.Witness.Journal.Reconcile
import Ferrocrate.Witness.Journal.Run

/-! Which pending operations can be reconciled. A record rebuilt from the stored state has to
pass the decoders of `reconcile.rs` and to carry the epoch of the received record again. -/
namespace Ferrocrate.Witness
open Lib Lib.Program Journal

def OperationState.identity (st : OperationState) : OperationState :=
  { st with
    state := stateReceived
    pendingGeneration := 1
    decisionId := .zero 16
    decisionDigest := .zero 32
    unknownEventId := .zero 16 }

def rebuilt (received : WitnessRecord) (decisionId : Id) (stage : WitnessStage) (eventId : Id) :
    WitnessRecord :=
  { received with
    epoch := 0
    sequence := 0
    previousHash := .zero 32
    eventId := eventId
    decisionId := some decisionId
    rule := none
    decision := none
    reason := none
    resultDigest := none
    wallTimeNs := 0
    monotonicNs := 0
    stage := stage
    outcome := .none
    recoveryLink := none }

namespace Journal

theorem invocation_decodes (x : Invocation) : invocation x.code = .ok x := by cases x <;> rfl

theorem action_decodes (x : WitnessAction) : action x.code =
    if x = .containerStart ∨ x = .containerArchiveWrite then .error .corrupt else .ok x := by
  cases x <;> rfl

theorem resourceKind_decodes (x : WitnessResourceKind) : resourceKind x.code =
    if x = .rootlessMapping then .error .corrupt else .ok x := by
  cases x <;> rfl

theorem disclosure_decodes (x : Option DisclosureClass) : disclosure (disclosureCode x) = .ok x := by
  cases x with
  | none => rfl
  | some x => cases x <;> rfl

theorem recordFromState_eq {sha256 : Hasher} {st : OperationState}
    {received : WitnessRecord} {generation : UInt64}
    (h : st.identity = .received sha256 received generation) (stage : WitnessStage) (eventId : Id) :
    recordFromState st stage eventId =
      if (received.action = .containerStart ∨ received.action = .containerArchiveWrite)
          ∨ received.resourceKind = .rootlessMapping then .error .corrupt
      else .ok (rebuilt received st.decisionId stage eventId) := by
  cases st
  simp only [OperationState.identity, OperationState.received, OperationState.mk.injEq] at h
  obtain ⟨-, rfl, -, rfl, rfl, rfl, rfl, rfl, rfl, rfl, rfl, rfl, rfl, rfl, rfl, rfl, rfl, rfl, -,
    -, -, -⟩ := h
  simp only [recordFromState, invocation_decodes, action_decodes, resourceKind_decodes,
    disclosure_decodes]
  by_cases ha : received.action = .containerStart ∨ received.action = .containerArchiveWrite
  · simp only [ha, true_or, if_true]
    rfl
  · by_cases hk : received.resourceKind = .rootlessMapping
    · simp only [ha, hk, or_true, if_true, if_false]
      rfl
    · simp only [ha, hk, or_false, if_false]
      rfl

end Journal

theorem bindingMatches_rebuilt {sha256 : Hasher} {st : OperationState}
    {received r : WitnessRecord} {generation : UInt64}
    (h : st.identity = .received sha256 received generation) (hid : r.requestId = received.requestId)
    (hp : bindingPreimage r = bindingPreimage received) : st.bindingMatches sha256 r = true := by
  have hreq : st.requestId = received.requestId := congrArg OperationState.requestId h
  have hdig : st.bindingDigest = requestBindingDigest sha256 received :=
    congrArg OperationState.bindingDigest h
  simp [OperationState.bindingMatches, hreq, hid, hdig, requestBindingDigest, hp]

structure FreshEvents (sha256 : Hasher) (j : WitnessJournal) (id : OperationId)
    (observation : Digest) (recovered : Bool) (st : OperationState) : Prop where
  unknown : st.state = stateAllowed →
    j.store.events.contains (reconciliationEventId sha256 id observation unknownLabel) = false
  terminal : j.store.events.contains
    (reconciliationEventId sha256 id observation (recoveryLabel recovered)) = false
  distinct : reconciliationEventId sha256 id observation (recoveryLabel recovered)
    ≠ reconciliationEventId sha256 id observation unknownLabel

section Success
variable {sha256 : Hasher} {config : JournalConfig} {l : Ledger} {c : Controls}
  {j : WitnessJournal} {id : OperationId} {st : OperationState} {received : WitnessRecord}
  {generation : UInt64}

theorem Refines.fresh_of_contains (h : Refines sha256 config l j) {e : Id}
    (he : j.store.events.contains e = false) : l.Fresh e :=
  h.fresh (by rw [he]; decide)

def reconciliationRecord (received : WitnessRecord) (decisionId : Id) (stage : WitnessStage)
    (eventId : Id) (observation : Digest) (reason : ReasonCode) (outcome : WitnessOutcome)
    (link : Option Id) : WitnessRecord :=
  { rebuilt received decisionId stage eventId with
    resultDigest := some observation
    recoveryLink := link
    reason := some reason
    outcome := outcome }

theorem terminalMatches_rebuilt (hid : st.identity = .received sha256 received generation)
    (hepoch : received.epoch = l.epoch) (stage : WitnessStage) (eventId : Id)
    (observation : Digest) (reason : ReasonCode) (outcome : WitnessOutcome) (link : Option Id) :
    st.terminalMatches sha256 (l.stamp sha256 config.journalId l.epoch
      (reconciliationRecord received st.decisionId stage eventId observation reason outcome
        link)) = true := by
  rw [OperationState.terminalMatches, Bool.and_eq_true]
  refine ⟨bindingMatches_rebuilt hid rfl ?_, by simp [reconciliationRecord, rebuilt]⟩
  rw [← hepoch]
  rfl

theorem reconciliationRecord_unknown_valid (received : WitnessRecord) (decisionId eventId : Id)
    (observation : Digest) : validRecord (reconciliationRecord received decisionId .outcome eventId
      observation .executionFailed .outcomeUnknown none) = true := rfl

theorem reconciliationRecord_recovery_valid (received : WitnessRecord) (decisionId eventId : Id)
    (observation : Digest) (recovered : Bool) (link : Id) :
    validRecord (reconciliationRecord received decisionId .recovery eventId observation
      (if recovered then .recoveryCompleted else .quarantined)
      (if recovered then .recovered else .quarantined) (some link)) = true := by
  cases recovered <;> rfl

variable {observation : Digest} {recovered : Bool}

section
variable (h : Calm sha256 config l c j) (ho : l.operations id = some st)
  (hstate : st.state = stateAllowed ∨ st.state = stateUnknown)
  (hid : st.identity = .received sha256 received generation) (hepoch : received.epoch = l.epoch)
  (hknown : ¬((received.action = .containerStart ∨ received.action = .containerArchiveWrite)
    ∨ received.resourceKind = .rootlessMapping))
  (hq : hasCapacity recordBound j = true)
  (hroom : footprint config.journalId l.entries + 2 * (recordBound + 12) ≤ config.databaseLimit)
  (hfresh : FreshEvents sha256 j id observation recovered st)
include h ho hstate hid hepoch hknown hq hroom hfresh

theorem settleUnknown_calm :
    wp (settleUnknown sha256 id observation st)
      (fun eventId j' => ∃ l' st', Calm sha256 config l' c j' ∧ l'.operations id = some st' ∧
        st'.state = stateUnknown ∧ st'.unknownEventId = eventId ∧ st'.identity = st.identity ∧
        st'.decisionId = st.decisionId ∧ l'.epoch = l.epoch ∧
        l'.Fresh (reconciliationEventId sha256 id observation (recoveryLabel recovered)) ∧
        footprint config.journalId l'.entries + (recordBound + 12) ≤ config.databaseLimit)
      (fun _ _ => False) j := by
  have hterminal := h.refines.fresh_of_contains hfresh.terminal
  have hroom₁ : footprint config.journalId l.entries + (recordBound + 12) ≤ config.databaseLimit :=
    (Nat.add_le_add_left (Nat.le_mul_of_pos_left _ Nat.two_pos) _).trans hroom
  rcases hstate with hs | hs
  · have hunknown := h.refines.fresh_of_contains (hfresh.unknown hs)
    simp only [settleUnknown, hs, if_true, wp_bind, wp_ofExcept, recordFromState_eq hid, if_neg hknown,
      wp_pure, recordOutcomeUnknown, wp_get, h.refines.epoch]
    refine ⟨?_, fun e he => by cases he⟩
    intro r hr
    obtain rfl := Except.ok.inj hr
    generalize hrecord : reconciliationRecord received st.decisionId .outcome
      (reconciliationEventId sha256 id observation unknownLabel) observation .executionFailed
      .outcomeUnknown none = record
    have hevent : record.eventId = reconciliationEventId sha256 id observation unknownLabel := by
      rw [← hrecord]
      rfl
    have hcalm := recordOutcomeUnknownAt_calm l.epoch record h
      (by rw [← hrecord]; rfl) (by rw [← hrecord]; rfl) ho hs
      (by rw [← hrecord]; exact terminalMatches_rebuilt hid hepoch _ _ _ _ _ _)
      (by rw [← hrecord]; exact reconciliationRecord_unknown_valid _ _ _ _)
      (by rw [hevent]; exact hunknown) hq hroom₁
    rw [← hrecord] at hcalm
    refine wp_mono hcalm ?_ (fun _ _ hf => hf)
    intro _ j' h'
    rw [hrecord] at h'
    have hext := footprint_extend config.journalId l (l.stamp sha256 config.journalId l.epoch record)
    refine ⟨_, { st with
      state := stateUnknown
      unknownEventId := record.eventId
      pendingGeneration := st.pendingGeneration + 1 }, h', Function.update_self .., rfl, hevent,
      rfl, rfl, rfl, ?_, ?_⟩
    · simp only [Ledger.Fresh, Ledger.entries_extend, List.map_append, List.mem_append,
        List.map_cons, List.map_nil, List.mem_singleton, not_or, Ledger.stamp_eventId, hevent]
      exact ⟨hterminal, hfresh.distinct⟩
    · refine (Nat.add_le_add_right hext _).trans ?_
      rw [Nat.add_assoc, ← Nat.two_mul]
      exact hroom
  · simp only [settleUnknown, hs, wp_ite, wp_pure]
    refine ⟨fun hbad => absurd hbad (by decide), fun _ => ⟨fun _ => ?_, fun hbad => absurd trivial hbad⟩⟩
    exact ⟨l, st, h, ho, hs, rfl, rfl, rfl, rfl, hterminal, hroom₁⟩

theorem reconcileObserved_calm {executionGeneration : UInt64} {recipe : RecoveryRecipe}
    (hc : c.Recovering) (hp : l.pending id = some (executionGeneration, recipe))
    (hread : RecoveryRecipe.decode (recipe.encode executionGeneration)
      = some (executionGeneration, recipe)) :
    wp (reconcileObserved sha256
        (.verified ⟨id, executionGeneration, recipe⟩ observation recovered))
      (fun _ j' => ∃ l' st', Refines sha256 config l' j' ∧ l'.operations id = some st' ∧
        st'.state = stateComplete ∧ l'.pending id = none)
      (fun _ _ => False) j := by
  have hget : j.store.operations.get id = some st.encode := by
    rw [h.refines.represents.operations, ho]
    rfl
  have hpending : j.store.pending.get id = some (recipe.encode executionGeneration) := by
    rw [h.refines.represents.pending, hp]
    rfl
  simp only [reconcileObserved, RecoveryEvidence.verified, wp_bind, wp_get, wp_okOr, hget,
    hpending, Option.some.injEq]
  refine ⟨?_, fun hbad => by cases hbad⟩
  rintro _ rfl
  refine ⟨?_, fun hbad => by rw [hread] at hbad; cases hbad⟩
  rintro ⟨_, _⟩ hdecode
  rw [hread] at hdecode
  cases hdecode
  refine (wp_rejectIf _ _ _ _ _).mpr
    ⟨fun hbad => by simp at hbad, fun _ => ⟨?_, fun hbad => by cases hbad⟩⟩
  rintro _ rfl
  refine ⟨?_, fun hbad => by simp at hbad⟩
  intro st' hst'
  rw [OperationState.decode_encode] at hst'
  obtain rfl := Option.some.inj hst'
  refine wp_mono (settleUnknown_calm h ho hstate hid hepoch hknown hq hroom hfresh) ?_
    (fun _ _ hf => hf)
  rintro eventId j' ⟨l', st', h', ho', hs', rfl, hident, hdecision, hepoch', hnew, hroom'⟩
  simp only [wp_ofExcept, recordFromState_eq hid, if_neg hknown, completeRecovery, wp_bind, wp_get,
    h'.refines.epoch]
  refine ⟨?_, fun e he => by cases he⟩
  intro r hr
  obtain rfl := Except.ok.inj hr
  have hcalm := completeRecoveryAt_calm l'.epoch (reconciliationRecord received st.decisionId
      .recovery (reconciliationEventId sha256 id observation (recoveryLabel recovered)) observation
      (if recovered then .recoveryCompleted else .quarantined)
      (if recovered then .recovered else .quarantined) (some st'.unknownEventId))
    h' hc rfl ho' hs'
    (by
      rw [← hdecision]
      exact terminalMatches_rebuilt (hident.trans hid) (hepoch.trans hepoch'.symm) _ _ _ _ _ _)
    rfl (reconciliationRecord_recovery_valid _ _ _ _ _ _) hnew hroom'
  have hdone : wp _ (fun _ j' => ∃ l' st', Refines sha256 config l' j' ∧
      l'.operations id = some st' ∧ st'.state = stateComplete ∧ l'.pending id = none)
      (fun _ _ => False) j' := wp_mono hcalm
    (fun _ j'' h'' => ⟨_, { st' with
      state := stateComplete
      pendingGeneration := st'.pendingGeneration + 1 }, h'', Function.update_self .., rfl,
      Function.update_self ..⟩) (fun _ _ hf => hf)
  cases recovered <;> exact hdone

end

theorem recordOutcomeUnknownAt_matches (epoch : UInt64) (record : WitnessRecord)
    (h : Refines sha256 config l j) (ho : l.operations id = some st) :
    wp (recordOutcomeUnknownAt sha256 epoch id record)
      (fun _ _ => st.terminalMatches sha256 { record with epoch := epoch } = true)
      (fun _ _ => True) j := by
  simp only [recordOutcomeUnknownAt, wp_bind, wp_rejectIf]
  refine ⟨fun _ => trivial, fun _ => ?_⟩
  refine wp_mono (preflight_quiet _ sha256 config l j h) (fun _ j h => ?_) (fun _ _ _ => trivial)
  simp only [wp_get, wp_okOr]
  refine ⟨fun stateBytes hget => ⟨fun state hstate => ?_, fun _ => trivial⟩, fun _ => trivial⟩
  obtain rfl := Option.some.inj (ho.symm.trans (h.operation_eq hget hstate))
  simp only [wp_ite, wp_bind, wp_rejectIf]
  refine ⟨fun _ => ?_, fun _ => ⟨fun _ => trivial, fun hok => ?_⟩⟩
  · refine wp_mono (flush_quiet _ _ sha256 config l j h) (fun _ _ _ => ?_) (fun _ _ _ => trivial)
    exact trivial
  · simp only [not_or, Bool.not_eq_false] at hok
    simp only [← wp_bind]
    exact wp_const hok.2

theorem completeRecoveryAt_matches (epoch : UInt64) (record : WitnessRecord)
    (h : Refines sha256 config l j) (ho : l.operations id = some st) :
    wp (completeRecoveryAt sha256 epoch id record)
      (fun _ _ => st.terminalMatches sha256 { record with epoch := epoch } = true)
      (fun _ _ => True) j := by
  rw [completeRecoveryAt]
  simp only [wp_bind _ _ _ _ j, wp_get, wp_rejectIf, wp_okOr]
  refine ⟨fun _ => trivial, fun _ => ⟨fun _ => trivial, fun _ =>
    ⟨fun stateBytes hget => ⟨fun state hstate => ⟨fun _ => trivial, fun hok => ?_⟩,
      fun _ => trivial⟩, fun _ => trivial⟩⟩⟩
  obtain rfl := Option.some.inj (ho.symm.trans (h.operation_eq hget hstate))
  simp only [not_or, Bool.not_eq_false] at hok
  simp only [← wp_bind]
  exact wp_const hok.2.1

theorem reconcileObserved_matches
    (pending : PendingOperation) (h : Refines sha256 config l j)
    (ho : l.operations pending.operationId = some st)
    (hstate : st.state = stateAllowed ∨ st.state = stateUnknown)
    (hid : st.identity = .received sha256 received generation) :
    wp (reconcileObserved sha256 (.verified pending observation recovered))
      (fun _ _ => ¬((received.action = .containerStart ∨ received.action = .containerArchiveWrite)
          ∨ received.resourceKind = .rootlessMapping) ∧
        requestBindingDigest sha256 received
          = requestBindingDigest sha256 { received with epoch := l.epoch })
      (fun _ _ => True) j := by
  have hdigest : ∀ {r : WitnessRecord}, st.terminalMatches sha256 r = true →
      bindingPreimage r = bindingPreimage { received with epoch := l.epoch } →
      requestBindingDigest sha256 received
        = requestBindingDigest sha256 { received with epoch := l.epoch } := by
    intro r hm hr
    simp only [OperationState.terminalMatches, OperationState.bindingMatches, Bool.and_eq_true,
      decide_eq_true_eq] at hm
    have hdig : st.bindingDigest = requestBindingDigest sha256 received :=
      congrArg OperationState.bindingDigest hid
    rw [← hdig, hm.1.2, requestBindingDigest, hr, requestBindingDigest]
  rw [reconcileObserved]
  simp only [wp_bind, wp_get, wp_okOr]
  refine ⟨fun bytes _ => ⟨fun decoded _ => ?_, fun _ => trivial⟩, fun _ => trivial⟩
  refine (wp_rejectIf _ _ _ _ _).mpr ⟨fun _ => trivial, fun _ => ?_⟩
  refine ⟨fun stateBytes hget => ⟨fun state hs => ?_, fun _ => trivial⟩, fun _ => trivial⟩
  obtain rfl := Option.some.inj (ho.symm.trans (h.operation_eq hget hs))
  by_cases hknown : (received.action = .containerStart ∨ received.action = .containerArchiveWrite)
      ∨ received.resourceKind = .rootlessMapping
  · refine wp_mono (wp_const trivial) (fun eventId j' _ => ?_) (fun _ _ _ => trivial)
    rw [recordFromState_eq hid, if_pos hknown]
    exact trivial
  rcases hstate with hs' | hs'
  · simp only [settleUnknown, hs', if_true, wp_bind, wp_ofExcept, recordFromState_eq hid,
      if_neg hknown, recordOutcomeUnknown, wp_get, h.epoch, wp_pure]
    refine ⟨fun r hr => ?_, fun _ _ => trivial⟩
    obtain rfl := Except.ok.inj hr
    refine wp_mono (recordOutcomeUnknownAt_matches _ _ h ho) (fun _ j' hm => ?_)
      (fun _ _ _ => trivial)
    refine ⟨fun r _ => ?_, fun _ _ => trivial⟩
    exact wp_const ⟨hknown, hdigest hm rfl⟩
  · have hsettle : settleUnknown sha256 pending.operationId observation st
        = (pure st.unknownEventId : Journaled Id) := by
      rw [settleUnknown, if_neg (by rw [hs']; decide), if_pos hs']
    simp only [RecoveryEvidence.verified, hsettle, wp_pure, wp_ofExcept, recordFromState_eq hid,
      if_neg hknown, completeRecovery, wp_bind, wp_get, h.epoch]
    refine ⟨fun r hr => ?_, fun _ _ => trivial⟩
    obtain rfl := Except.ok.inj hr
    exact wp_mono (completeRecoveryAt_matches _ _ h ho) (fun _ j' hm => ⟨hknown, hdigest hm rfl⟩)
      (fun _ _ _ => trivial)

end Success

end Ferrocrate.Witness

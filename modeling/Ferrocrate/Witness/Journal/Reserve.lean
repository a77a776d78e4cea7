import Ferrocrate.Witness.Journal.Quota
import Ferrocrate.Witness.Journal.Undisturbed

/-! The cleanup reserve of a journal (`journal/quota.rs`): what it pays for, over whole sessions,
and what a recovery that breaks off leaves behind. -/
namespace Ferrocrate.Witness
open Lib Lib.Program Journal

variable {sha256 : Hasher} {config : JournalConfig} {l l' : Ledger} {j : WitnessJournal}

theorem undisturbed_reserve (reserve : UInt64) :
    Undisturbed fun j => j.store.metadata.reserve = reserve where
  faults _ _ h := h
  mirror _ _ h := h
  epoch _ _ h := h
  store _ _ hs h := (congrArg Prod.fst hs).trans h

theorem finishCleanupReservation_reserve (reserve remaining : UInt64) :
    Preserves (fun j => j.store.metadata.reserve = reserve) (finishCleanupReservation remaining) := by
  intro j hj
  simp only [finishCleanupReservation, wp_bind, modifyMeta, wp_modify]
  exact hj

theorem stopAutomation_reserve (reserve : UInt64) :
    Preserves (fun j => j.store.metadata.reserve = reserve) stopAutomation :=
  preserves_modify fun _ h => h

structure Charged (sha256 : Hasher) (config : JournalConfig) (l : Ledger)
    (j : WitnessJournal) : Prop where
  refines : Refines sha256 config l j
  charged : j.store.metadata.reserve.toNat + recoveryLength config.journalId l.entries
    = config.cleanupReserveBytes.toNat

theorem completeRecoveryAt_charged (epoch : UInt64) (id : OperationId) (record : WitnessRecord)
    (h : Charged sha256 config l j) :
    wp (completeRecoveryAt sha256 epoch id record) (fun _ j' => ∃ l', Charged sha256 config l' j')
      (fun _ j' => ∃ l', Charged sha256 config l' j') j := by
  have hback (j' : WitnessJournal) (hr : Refines sha256 config l j') (hu : Uncharged j.store j') :
      ∃ l', Charged sha256 config l' j' := by
    refine ⟨l, hr, ?_⟩
    rw [hu.reserve]
    exact h.charged
  refine completeRecoveryAt_rule epoch id record h.refines hback
    fun l₂ reserveAfter j' hentries hr hpaid => ?_
  have hcharged := hpaid.total h.charged
  have hdone {l' : Ledger} {j : WitnessJournal} (hl' : l'.entries = l₂.entries)
      (hj : Refines sha256 config l' j ∧ j.store.metadata.reserve = reserveAfter) :
      ∃ l', Charged sha256 config l' j := by
    rw [← hentries, ← hl', ← hj.2] at hcharged
    exact ⟨l', hj.1, hcharged⟩
  have hkeeps := undisturbed_reserve reserveAfter
  refine wp_mono (wp_and (flush_quiet _ _ sha256 config _ _ hr)
    (hkeeps.flush _ _ _ hpaid.reserve)) ?_ ?_
  · rintro _ j ⟨hr, hreserve⟩
    refine wp_mono (wp_and (finishCleanupReservation_quiet _ sha256 config _ _ hr)
      (finishCleanupReservation_reserve _ _ j hreserve)) ?_ (fun _ _ => hdone rfl)
    rintro _ j ⟨hr, hreserve⟩
    exact wp_mono (wp_and (postAckRotation_quiet sha256 config _ _ hr)
      (hkeeps.postAckRotation j hreserve)) (fun _ _ => hdone rfl) (fun _ _ => hdone rfl)
  · rintro _ j ⟨hr, hreserve⟩
    exact wp_mono (wp_and (stopAutomation_quiet sha256 config _ _ hr)
      (stopAutomation_reserve _ j hreserve)) (fun _ _ => hdone rfl) (fun _ _ => hdone rfl)

theorem Operation.apply_charged (op : Operation) (h : Charged sha256 config l j) :
    ∃ l', Charged sha256 config l' (op.apply sha256 j) := by
  by_cases hop : ∀ id record, op ≠ .completeRecovery id record
  · obtain ⟨l', hl', hmoves⟩ := op.apply_refines h.refines
    have hreserve : (op.apply sha256 j).store.metadata.reserve = j.store.metadata.reserve :=
      after_of_wp ((undisturbed_reserve j.store.metadata.reserve).call sha256 op hop j rfl)
    refine ⟨l', hl', ?_⟩
    rw [hreserve, hmoves.recoveryLength_eq, h.charged]
    intro id hmem
    cases op with
    | completeRecovery id' record => exact hop id' record rfl
    | _ => simp [Operation.events] at hmem
  · simp only [ne_eq, not_forall, not_not] at hop
    obtain ⟨id, record, rfl⟩ := hop
    have hwp : wp (Journal.completeRecovery sha256 id record)
        (fun _ j' => ∃ l', Charged sha256 config l' j')
        (fun _ j' => ∃ l', Charged sha256 config l' j') j := by
      simp only [Journal.completeRecovery, wp_bind, wp_get]
      exact completeRecoveryAt_charged j.epoch id record h
    exact after_of_wp hwp

structure Stopped (j : WitnessJournal) : Prop where
  automation : j.automationStopped = true
  marker : j.stopMarker = true
  inflight : j.store.metadata.reserveInflight.isSome = true

theorem undisturbed_stopped : Undisturbed Stopped where
  faults _ _ h := ⟨h.automation, h.marker, h.inflight⟩
  mirror _ _ h := ⟨h.automation, h.marker, h.inflight⟩
  epoch _ _ h := ⟨h.automation, h.marker, h.inflight⟩
  store j s hs h := by
    have hinflight : s.metadata.reserveInflight = j.store.metadata.reserveInflight :=
      congrArg (fun guard => guard.2.1) hs
    exact ⟨h.automation, h.marker, hinflight ▸ h.inflight⟩

theorem undisturbed_idle : Undisturbed fun j => j.store.metadata.reserveInflight = none where
  faults _ _ h := h
  mirror _ _ h := h
  epoch _ _ h := h
  store _ _ hs h := (congrArg (fun guard => guard.2.1) hs).trans h

theorem completeRecovery_of_automationStopped (h : j.automationStopped = true) (id : OperationId)
    (record : WitnessRecord) :
    (Journal.completeRecovery sha256 id record).result j = .error .automationStopped ∧
      (Journal.completeRecovery sha256 id record).after j = j := by
  have hwp : wp (Journal.completeRecovery sha256 id record) (fun _ _ => False)
      (fun e j' => e = .automationStopped ∧ j' = j) j := by
    simp only [Journal.completeRecovery, completeRecoveryAt, wp_bind, wp_get, wp_rejectIf, h]
    exact ⟨fun _ => ⟨trivial, trivial⟩, fun hstop => absurd trivial hstop⟩
  rw [wp_iff] at hwp
  cases hr : (Journal.completeRecovery sha256 id record).result j with
  | ok u => exact (hwp.1 u hr).elim
  | error e =>
    obtain ⟨rfl, hafter⟩ := hwp.2 e hr
    exact ⟨rfl, hafter⟩

theorem reopen_of_stopped (h : Stopped j) (faults : Finset FaultPoint) (mirror : ReadMirror) :
    j.reopen faults mirror = .error .automationStopped := by
  rw [WitnessJournal.reopen, if_pos h.marker]

theorem SessionStep.apply_stopped (step : SessionStep) (h : Stopped j) :
    Stopped (step.apply sha256 j) := by
  cases step with
  | reopen faults mirror => simpa only [SessionStep.apply, reopen_of_stopped h] using h
  | call op =>
    by_cases hop : ∀ id record, op ≠ .completeRecovery id record
    · exact after_of_wp (undisturbed_stopped.call sha256 op hop j h)
    · simp only [ne_eq, not_forall, not_not] at hop
      obtain ⟨id, record, rfl⟩ := hop
      have hafter : (Journal.completeRecovery sha256 id record).after j = j :=
        (completeRecovery_of_automationStopped h.automation id record).2
      show Stopped ((Journal.completeRecovery sha256 id record).after j)
      rw [hafter]
      exact h

theorem runSession_stopped (steps : List SessionStep) (h : Stopped j) :
    Stopped (runSession sha256 steps j) := by
  induction steps generalizing j with
  | nil => exact h
  | cons step steps ih => exact ih (step.apply_stopped h)

/-- SQLite does not refuse the transaction that writes the record. -/
def TakesRecord (j : WitnessJournal) (record : WitnessRecord) : Prop :=
  j.store.bytes + (recordLayout j.config.journalId record).length ≤ j.config.databaseLimit

namespace Journal

theorem wp_stopAt (point : FaultPoint) (Q : Unit → WitnessJournal → Prop)
    (E : JournalError → WitnessJournal → Prop) (j : WitnessJournal) :
    wp (stopAt point) Q E j ↔
      (point ∈ j.faults → E .automationStopped { j with
        faults := j.faults.erase point
        automationStopped := true
        stopMarker := true
        store := { j.store with metadata := { j.store.metadata with automationStopped := true } } }) ∧
      (point ∉ j.faults → Q () j) := by
  simp only [stopAt, wp_bind, wp_takeFault, wp_runIf, stopAutomation, wp_modify, wp_throw,
    decide_eq_true_eq]
  refine and_congr_right fun _ => forall_congr' fun hclear => ?_
  rw [Finset.erase_eq_of_notMem hclear]

theorem beginCleanupReservation_broken (id : OperationId) (bytes : Nat)
    (hnone : j.store.metadata.reserveInflight = none) :
    wp (beginCleanupReservation id bytes)
      (fun _ j' => j' = { j with store := { j.store with metadata := { j.store.metadata with
          reserveInflight := some (id, UInt64.ofNat bytes) } } })
      (fun _ j' => j'.store.metadata.reserveInflight = none ∨ Stopped j') j := by
  simp only [beginCleanupReservation, wp_bind, wp_stopAt, wp_get, wp_rejectIf]
  refine ⟨fun _ => .inl hnone, fun _ => ⟨fun _ => .inl hnone, fun _ => ⟨fun _ => .inl hnone,
    fun _ => ?_⟩⟩⟩
  cases checkedSub j.store.metadata.reserve (UInt64.ofNat bytes) with
  | none =>
    simp only [wp_bind, stopAutomation, wp_modify, wp_throw]
    exact .inl hnone
  | some next =>
    simp only [wp_bind, modifyMeta, wp_modify, wp_stopAt, wp_pure]
    exact ⟨fun _ => .inr ⟨rfl, rfl, rfl⟩, fun _ => ⟨fun _ => .inr ⟨rfl, rfl, rfl⟩,
      fun _ => ⟨fun _ => .inr ⟨rfl, rfl, rfl⟩, fun _ => trivial⟩⟩⟩

end Journal

theorem Refines.bytes_put (h : Refines sha256 config l j) {epoch : UInt64} {record : WitnessRecord}
    {s : Store}
    (hr : s.records = j.store.records.put (l.stamp sha256 config.journalId epoch record).sequence
      (recordLayout config.journalId (l.stamp sha256 config.journalId epoch record)))
    (hs : s.sealedSegments = j.store.sealedSegments) :
    s.bytes = j.store.bytes + (recordLayout config.journalId record).length := by
  have hlength : (recordLayout config.journalId (l.stamp sha256 config.journalId epoch record)).length
      = (recordLayout config.journalId record).length := length_restamped _ _ _ _ _
  have hput := h.entries_put (recordLayout config.journalId
    (l.stamp sha256 config.journalId epoch record)) (by rw [h.stamp_toNat epoch record]; omega)
  simp only [Store.bytes, hr, hs, hput, List.map_append, List.sum_append, List.map_cons,
    List.map_nil, List.sum_cons, List.sum_nil, hlength]
  omega

theorem completeRecoveryAt_broken (epoch : UInt64) (id : OperationId) (record : WitnessRecord)
    (h : Refines sha256 config l j) (hnone : j.store.metadata.reserveInflight = none)
    (htakes : TakesRecord j record) :
    wp (completeRecoveryAt sha256 epoch id record) (fun _ _ => True)
      (fun _ j' => j'.store.metadata.reserveInflight = none ∨ Stopped j') j := by
  simp only [completeRecoveryAt, wp_bind, wp_rejectIf, wp_get, wp_okOr, wp_ofExcept, wp_transaction,
    wp_attempt, wp_throw, Except.ite_error_eq_ok, ne_eq, not_or, not_not]
  refine ⟨fun _ => .inl hnone, fun _ => ⟨fun _ => .inl hnone, fun hstage => ⟨fun stateBytes hget =>
    ⟨fun state hstate => ⟨fun _ => .inl hnone, fun _ => ?_⟩, fun _ => .inl hnone⟩,
    fun _ => .inl hnone⟩⟩⟩
  simp only [h.stamp_eq epoch record]
  simp only [h.next_eq epoch record, h.sameConfig]
  refine ⟨fun bytes hbytes => ⟨fun _ => .inl hnone, fun hfresh => ?_⟩, fun _ _ => .inl hnone⟩
  obtain ⟨hvalid, -, rfl⟩ := (encodeRecord_ok_iff _ _ _).mp hbytes
  refine wp_mono (beginCleanupReservation_broken _ _ hnone) ?_ (fun _ _ hbroken => hbroken)
  rintro reserveAfter j' rfl
  simp only [wp_stopAt]
  refine ⟨fun _ => .inr ⟨rfl, rfl, rfl⟩, fun _ => ⟨fun _ => .inr ⟨rfl, rfl, rfl⟩, fun _ => ⟨?_, ?_⟩⟩⟩
  · rintro s ⟨-, -, hs⟩
    have hbytes : s.bytes = j.store.bytes + (recordLayout config.journalId record).length :=
      h.bytes_put (by rw [← Except.ok.inj hs]) (by rw [← Except.ok.inj hs])
    refine ⟨fun _ => ?_, fun hfull => ?_⟩
    · have hinflight : s.metadata.reserveInflight.isSome = true := by rw [← Except.ok.inj hs]; rfl
      have hflush : Preserves (fun j : WitnessJournal =>
          j.store.metadata.reserveInflight.isSome = true) (flush .outcome id) :=
        flush_preserves (fun _ _ h => h) _ _
      refine wp_mono (hflush _ hinflight) (fun _ j' _ => ?_) (fun _ j' hinflight => ?_)
      · simp only [finishCleanupReservation, wp_bind, modifyMeta, wp_modify]
        exact wp_mono (undisturbed_idle.postAckRotation _ rfl) (fun _ _ _ => trivial)
          (fun _ _ hidle => .inl hidle)
      · simp only [stopAutomation, wp_modify]
        exact .inr ⟨rfl, rfl, hinflight⟩
    · rw [TakesRecord, h.sameConfig, ← hbytes] at htakes
      rw [h.sameConfig] at hfull
      exact absurd hfull (not_lt.mpr htakes)
  · intro e he
    have hhead : ¬¬j.store.metadata.headSequence = j.head.1 := not_not.mpr rfl
    rw [if_neg hhead, if_neg hfresh] at he
    cases he

theorem reopen_store {faults : Finset FaultPoint} {mirror : ReadMirror} {j' : WitnessJournal}
    (h : j.reopen faults mirror = .ok j') : j'.store = j.store := by
  simp only [WitnessJournal.reopen, Except.ite_error_eq_ok] at h
  obtain ⟨-, -, -, -, -, h⟩ := h
  cases h
  rfl

theorem SessionStep.apply_charged (step : SessionStep) (h : Charged sha256 config l j) :
    ∃ l', Charged sha256 config l' (step.apply sha256 j) := by
  cases step with
  | call op => exact op.apply_charged h
  | reopen faults mirror =>
    cases hopen : j.reopen faults mirror with
    | error e => exact ⟨l, by simpa only [SessionStep.apply, hopen] using h⟩
    | ok j' =>
      have hcharged := h.charged
      rw [← reopen_store hopen] at hcharged
      exact ⟨l, by simpa only [SessionStep.apply, hopen] using ⟨h.refines.reopen hopen, hcharged⟩⟩

theorem runSession_charged (steps : List SessionStep) (h : Charged sha256 config l j) :
    ∃ l', Charged sha256 config l' (runSession sha256 steps j) := by
  induction steps generalizing l j with
  | nil => exact ⟨l, h⟩
  | cons step steps ih =>
    obtain ⟨l', h'⟩ := step.apply_charged h
    exact ih h'

/-- In every later session each recovery is refused and leaves the records as they are, and the
directory does not open again. -/
def StaysStopped (sha256 : Hasher) (j : WitnessJournal) : Prop :=
  ∀ later : List SessionStep,
    (∀ id record, (Journal.completeRecovery sha256 id record).result (runSession sha256 later j)
        = .error .automationStopped ∧
      Journal.records ((Journal.completeRecovery sha256 id record).after (runSession sha256 later j))
        = Journal.records (runSession sha256 later j)) ∧
    ∀ faults mirror, (runSession sha256 later j).reopen faults mirror = .error .automationStopped

theorem Stopped.staysStopped (h : Stopped j) : StaysStopped sha256 j := by
  intro later
  have hlater : Stopped (runSession sha256 later j) := runSession_stopped later h
  refine ⟨fun id record => ?_, reopen_of_stopped hlater⟩
  have hrefused : (Journal.completeRecovery sha256 id record).result (runSession sha256 later j)
        = .error .automationStopped ∧
      (Journal.completeRecovery sha256 id record).after (runSession sha256 later j)
        = runSession sha256 later j :=
    completeRecovery_of_automationStopped hlater.automation id record
  exact ⟨hrefused.1, congrArg Journal.records hrefused.2⟩

structure ReserveSound (sha256 : Hasher) (config : JournalConfig) (j : WitnessJournal) :
    Prop where
  stored : ∃ stored, Journal.records j = .ok stored
  paid : j.store.metadata.reserve.toNat + recoveryBytes j = config.cleanupReserveBytes.toNat
  kept : ∀ op : Operation, (∀ id record, op ≠ .completeRecovery id record) →
    (op.apply sha256 j).store.metadata.reserve = j.store.metadata.reserve
  reopened : ∀ faults mirror j', j.reopen faults mirror = .ok j' →
    j'.store.metadata.reserve = j.store.metadata.reserve
  -- a recovery that fails after it has written its reservation
  broken : ∀ id record e, TakesRecord j record → j.store.metadata.reserveInflight = none →
    (Journal.completeRecovery sha256 id record).result j = .error e →
    ((Journal.completeRecovery sha256 id record).after j).store.metadata.reserveInflight ≠ none →
    StaysStopped sha256 ((Journal.completeRecovery sha256 id record).after j)

/-- The cleanup reserve over every session of calls, faults and restarts: it and the recovery
records make up what the journal was created with, only a recovery changes it, and a recovery that
breaks off after its reservation stops automation for good. -/
theorem cleanup_reserve_sound (sha256 : Hasher) (config : JournalConfig)
    (faults : Finset FaultPoint) (steps : List SessionStep) :
    ReserveSound sha256 config (runSession sha256 steps (.create config faults)) := by
  have hcreate : Charged sha256 config .empty (.create config faults) :=
    ⟨create_refines sha256 config faults, rfl⟩
  obtain ⟨l, h⟩ := runSession_charged steps hcreate
  generalize runSession sha256 steps (.create config faults) = j at h
  exact {
    stored := ⟨_, h.refines.records_eq⟩
    paid := by
      rw [h.refines.recoveryBytes_eq]
      exact h.charged
    kept := fun op hop =>
      after_of_wp ((undisturbed_reserve j.store.metadata.reserve).call sha256 op hop j rfl)
    reopened := fun faults mirror j' hopen => by rw [reopen_store hopen]
    broken := by
      intro id record e htakes hnone hresult hinflight
      have hbroken : wp (Journal.completeRecovery sha256 id record) (fun _ _ => True)
          (fun _ j' => j'.store.metadata.reserveInflight = none ∨ Stopped j') j := by
        simp only [Journal.completeRecovery, wp_bind, wp_get]
        exact completeRecoveryAt_broken j.epoch id record h.refines hnone htakes
      rcases ((wp_iff _ _ _ _).mp hbroken).2 e hresult with hidle | hstopped
      · exact absurd hidle hinflight
      · exact hstopped.staysStopped }

def unknownRun : List SessionStep :=
  let plain (n : UInt8) := plainRecord (.fill 16 7) (.fill 16 n)
  [.call (.appendReceived (.fill 16 7) 1 plainRecipe (plain 1 .requestReceived)),
    .call (.appendDecision (.fill 16 7) (plain 2 .decision)),
    .call (.recordOutcomeUnknown (.fill 16 7)
      { plain 3 .outcome with outcome := .outcomeUnknown, reason := some .executionFailed })]

def recoveryRecord : WitnessRecord :=
  { plainRecord (.fill 16 7) (.fill 16 4) .recovery with recoveryLink := some (.fill 16 3) }

/-- A recovery is stopped at the transaction of its record, behind its reservation. -/
theorem stopped_at_transaction :
    let j := runSession Sha256.sha256 (unknownRun ++ [.call (.failOnce (.transaction .outcome))])
      (.create (.new (.zero 16) .required) ∅)
    let recovery := Journal.completeRecovery Sha256.sha256 (.fill 16 7) recoveryRecord
    recovery.result j = .error .automationStopped ∧ StaysStopped Sha256.sha256 (recovery.after j) := by
  rw [Sha256.sha256_eq_unrolled]
  have hresult : (Journal.completeRecovery Sha256.unrolled (.fill 16 7) recoveryRecord).result
      (runSession Sha256.unrolled (unknownRun ++ [.call (.failOnce (.transaction .outcome))])
        (.create (.new (.zero 16) .required) ∅)) = .error .automationStopped := by decide +kernel
  refine ⟨hresult, (cleanup_reserve_sound _ _ _ _).broken _ _ _ ?_ (by decide +kernel) hresult
    (by decide +kernel)⟩
  unfold TakesRecord
  decide +kernel

end Ferrocrate.Witness

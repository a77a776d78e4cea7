import Ferrocrate.Lib.Sha256
import Ferrocrate.Witness.Journal.Recoverable

/-! Pending operations over whole runs: every operation keeps its received record's data and
a readable recipe, and is lost to reconciliation only by its action, its kind or a change of
epoch. -/
namespace Ferrocrate.Witness
open Lib Lib.Program Journal

def Operation.opens (sha256 : Hasher) (op : Operation) (j : WitnessJournal)
    (id : OperationId) : Bool :=
  (j.store.operations.get id).isNone && ((op.apply sha256 j).store.operations.get id).isSome

def openedEpoch (sha256 : Hasher) : List Operation → WitnessJournal → OperationId →
    Option UInt64
  | [], _, _ => none
  | op :: ops, j, id =>
    if op.opens sha256 j id then some j.epoch else openedEpoch sha256 ops (op.apply sha256 j) id

theorem openedEpoch_append (sha256 : Hasher) (ops : List Operation) (op : Operation)
    (j : WitnessJournal) (id : OperationId) :
    openedEpoch sha256 (ops ++ [op]) j id = (openedEpoch sha256 ops j id).or
      (if op.opens sha256 (runJournal sha256 ops j) id then some (runJournal sha256 ops j).epoch
        else none) := by
  induction ops generalizing j with
  | nil => rfl
  | cons x xs ih =>
    rw [List.cons_append, openedEpoch, openedEpoch]
    split
    · rfl
    · rw [ih]
      rfl

structure Traced (sha256 : Hasher) (l : Ledger) (opened : OperationId → Option UInt64) :
    Prop where
  unopened : ∀ id, l.operations id = none → opened id = none
  origin : ∀ id st, l.operations id = some st → ∃ received generation,
    st.identity = .received sha256 received generation ∧ opened id = some received.epoch ∧
    received.epoch ≤ l.epoch ∧
    (st.state ≠ stateComplete → ∃ executionGeneration recipe,
      l.pending id = some (executionGeneration, recipe) ∧
      recipe.originalAction = received.action ∧
      (st.state ≠ stateReceived → RecoveryRecipe.decode (recipe.encode executionGeneration)
        = some (executionGeneration, recipe)))

section Step
variable {sha256 : Hasher} {journalId : Id} {e : LedgerEvent} {l l' : Ledger}
  {opened : OperationId → Option UInt64}

theorem traced_empty (sha256 : Hasher) : Traced sha256 .empty (fun _ => none) where
  unopened := fun _ _ => rfl
  origin := by simp [Ledger.empty]

theorem Traced.move (h : Traced sha256 l opened) {id : OperationId} {st st' : OperationState}
    (ho : l.operations id = some st) (hl : l'.operations = Function.update l.operations id (some st'))
    (hepoch : l'.epoch = l.epoch) (hp : ∀ k, k ≠ id → l'.pending k = l.pending k)
    (hident : st'.identity = st.identity)
    (hrecipe : ∀ received : WitnessRecord, (∃ executionGeneration recipe,
        l.pending id = some (executionGeneration, recipe) ∧
        recipe.originalAction = received.action ∧
        (st.state ≠ stateReceived → RecoveryRecipe.decode (recipe.encode executionGeneration)
          = some (executionGeneration, recipe))) →
      st'.state ≠ stateComplete → ∃ executionGeneration recipe,
        l'.pending id = some (executionGeneration, recipe) ∧
        recipe.originalAction = received.action ∧
        (st'.state ≠ stateReceived → RecoveryRecipe.decode (recipe.encode executionGeneration)
          = some (executionGeneration, recipe)))
    (hopen : st.state ≠ stateComplete) : Traced sha256 l' opened := by
  constructor
  · intro k hk
    rw [hl] at hk
    by_cases hid : k = id
    · subst hid
      simp at hk
    · rw [Function.update_of_ne hid] at hk
      exact h.unopened k hk
  · intro k s hk
    rw [hl] at hk
    rw [hepoch]
    by_cases hid : k = id
    · subst hid
      rw [Function.update_self, Option.some.injEq] at hk
      subst hk
      obtain ⟨received, generation, hi, ho', hle, hpend⟩ := h.origin k st ho
      exact ⟨received, generation, hident.trans hi, ho', hle, hrecipe received (hpend hopen)⟩
    · rw [Function.update_of_ne hid] at hk
      obtain ⟨received, generation, hi, ho', hle, hpend⟩ := h.origin k s hk
      refine ⟨received, generation, hi, ho', hle, ?_⟩
      rw [hp k hid]
      exact hpend

theorem Traced.step (h : Traced sha256 l opened) (hs : Ledger.Step sha256 journalId l.epoch e l l')
    (he : ∀ id record, e ≠ .received id record) : Traced sha256 l' opened := by
  have hothers : ∀ {id} {p : Option (UInt64 × RecoveryRecipe)} {k}, k ≠ id →
      Function.update l.pending id p k = l.pending k := fun hk => Function.update_of_ne hk _ _
  cases hs with
  | received => exact absurd rfl (he _ _)
  | decided _ pending readable operation before _ _ _ _ _ =>
    refine h.move operation rfl rfl (fun _ _ => rfl) rfl ?_ (by rw [before]; decide)
    rintro received ⟨g, r, hp, ha, -⟩ -
    obtain ⟨rfl, rfl⟩ := Prod.mk.inj (Option.some.inj (hp.symm.trans pending))
    exact ⟨_, _, hp, ha, fun _ => readable⟩
  | denied _ _ _ operation before _ _ _ _ _ _ _ _ =>
    exact h.move operation rfl rfl (fun k => hothers) rfl (fun _ _ hne => absurd rfl hne)
      (by rw [before]; decide)
  | outcome _ _ operation before _ _ _ _ =>
    exact h.move operation rfl rfl (fun k => hothers) rfl (fun _ _ hne => absurd rfl hne)
      (by rw [before]; decide)
  | unknown _ _ operation before _ _ _ =>
    refine h.move operation rfl rfl (fun _ _ => rfl) rfl ?_ (by rw [before]; decide)
    rintro received ⟨g, r, hp, ha, hr⟩ -
    exact ⟨g, r, hp, ha, fun _ => hr (by rw [before]; decide)⟩
  | recovered _ operation before _ _ _ _ =>
    exact h.move operation rfl rfl (fun k => hothers) rfl (fun _ _ hne => absurd rfl hne)
      (by rw [before]; decide)
  | published _ _ _ => exact ⟨h.unopened, h.origin⟩

theorem Traced.receive (h : Traced sha256 l opened) {id : OperationId} {record : WitnessRecord}
    (hs : Ledger.Step sha256 journalId l.epoch (.received id record) l l') :
    Traced sha256 l' (Function.update opened id (some l.epoch)) := by
  cases hs with
  | @received _ _ generation recipe _ _ _ _ action _ new _ _ =>
    constructor
    · intro k hk
      by_cases hid : k = id
      · subst hid
        simp at hk
      · simp only [Function.update_of_ne hid] at hk ⊢
        exact h.unopened k hk
    · intro k s hk
      by_cases hid : k = id
      · subst hid
        simp only [Function.update_self, Option.some.injEq] at hk ⊢
        subst hk
        exact ⟨_, generation, rfl, rfl, UInt64.le_refl _, fun _ => ⟨generation, recipe, rfl, action,
          fun hne => absurd rfl hne⟩⟩
      · simp only [Function.update_of_ne hid] at hk ⊢
        obtain ⟨received, g, hi, ho', hle, hpend⟩ := h.origin k s hk
        exact ⟨received, g, hi, ho', hle, hpend⟩

end Step

section Run
variable {sha256 : Hasher} {config : JournalConfig} {l l' : Ledger} {j : WitnessJournal}
  {op : Operation}

theorem Refines.operation_isSome (h : Refines sha256 config l j) (id : OperationId) :
    (j.store.operations.get id).isSome = (l.operations id).isSome := by
  rw [h.represents.operations, Option.isSome_map]

theorem Operation.opens_eq (h : Refines sha256 config l j)
    (h' : Refines sha256 config l' (op.apply sha256 j)) (id : OperationId) :
    op.opens sha256 j id = ((l.operations id).isNone && (l'.operations id).isSome) := by
  rw [Operation.opens, h'.operation_isSome, h.represents.operations, Option.isNone_map]

theorem Ledger.Step.operations_isSome {journalId : Id} {epoch : UInt64} {e : LedgerEvent}
    (hs : Ledger.Step sha256 journalId epoch e l l') (he : ∀ id record, e ≠ .received id record)
    (k : OperationId) : (l'.operations k).isSome = (l.operations k).isSome := by
  have hkept : ∀ {id st} {s : OperationState}, l.operations id = some st →
      (Function.update l.operations id (some s) k).isSome = (l.operations k).isSome := by
    intro id st s ho
    by_cases hk : k = id
    · subst hk
      simp [ho]
    · rw [Function.update_of_ne hk]
  cases hs with
  | received => exact absurd rfl (he _ _)
  | decided _ _ _ operation _ _ _ _ _ _ => exact hkept operation
  | denied _ _ _ operation _ _ _ _ _ _ _ _ _ => exact hkept operation
  | outcome _ _ operation _ _ _ _ _ => exact hkept operation
  | unknown _ _ operation _ _ _ _ => exact hkept operation
  | recovered _ operation _ _ _ _ _ => exact hkept operation
  | published _ _ _ => rfl

theorem Traced.move_run {opened : OperationId → Option UInt64} (h : Traced sha256 l opened)
    (hr : Refines sha256 config l j) (hr' : Refines sha256 config l' (op.apply sha256 j))
    (hm : op.Moves sha256 config.journalId l l') :
    Traced sha256 l' fun id =>
      (opened id).or (if op.opens sha256 j id then some j.epoch else none) := by
  have hclosed : (∀ k, (l'.operations k).isSome = (l.operations k).isSome) →
      (fun id => (opened id).or (if op.opens sha256 j id then some j.epoch else none)) = opened := by
    intro hsame
    funext k
    rw [Operation.opens_eq hr hr', hsame]
    cases l.operations k <;> simp
  cases hm with
  | idle => rwa [hclosed fun _ => rfl]
  | @advance expected next call next_eq =>
    rw [hclosed fun _ => rfl]
    refine ⟨h.unopened, ?_⟩
    intro id st ho
    obtain ⟨received, generation, hi, ho', hle, hpend⟩ := h.origin id st ho
    refine ⟨received, generation, hi, ho', ?_, hpend⟩
    have hnext := toNat_checkedAdd next_eq
    rw [UInt64.le_iff_toNat_le] at hle ⊢
    show received.epoch.toNat ≤ next.toNat
    omega
  | @commit e _ mem step =>
    by_cases he : ∀ id record, e ≠ .received id record
    · rw [hclosed (step.operations_isSome he)]
      exact h.step step he
    · push Not at he
      obtain ⟨id, record, rfl⟩ := he
      have hnone : l.operations id = none := by
        cases step
        assumption
      have hopened : (fun k => (opened k).or (if op.opens sha256 j k then some j.epoch else none))
          = Function.update opened id (some l.epoch) := by
        funext k
        rw [Operation.opens_eq hr hr', hr.epoch]
        by_cases hk : k = id
        · subst hk
          cases step
          simp [h.unopened k hnone, hnone]
        · cases step
          rw [Function.update_of_ne hk]
          simp only [Function.update_of_ne hk]
          cases l.operations k <;> simp
      rw [hopened]
      exact h.receive step

theorem run_traced (sha256 : Hasher) (config : JournalConfig) (faults : Finset FaultPoint)
    (ops : List Operation) :
    ∃ l, Refines sha256 config l (runJournal sha256 ops (.create config faults)) ∧
      Traced sha256 l (openedEpoch sha256 ops (.create config faults)) := by
  induction ops using List.reverseRecOn with
  | nil => exact ⟨.empty, create_refines sha256 config faults, traced_empty sha256⟩
  | append_singleton ops op ih =>
    obtain ⟨l, hr, ht⟩ := ih
    obtain ⟨l', hr', hm⟩ := op.apply_refines hr
    refine ⟨l', ?_, ?_⟩
    · simpa [runJournal] using hr'
    · have hopened : openedEpoch sha256 (ops ++ [op]) (.create config faults) = _ :=
        funext (openedEpoch_append sha256 ops op _)
      rw [hopened]
      exact ht.move_run hr hr' hm

end Run

def storedState (j : WitnessJournal) (id : OperationId) : Option OperationState :=
  (j.store.operations.get id).bind OperationState.decode

def provided (j : WitnessJournal) : Bool :=
  j.faults = ∅ && hasCapacity recordBound j
    && (match Journal.records j with
      | .error _ => false
      | .ok stored => (stored.map fun bytes => bytes.length + 12).sum + 2 * (recordBound + 12)
          ≤ j.config.databaseLimit)
    && !j.automationStopped && !j.store.metadata.automationStopped
    && j.store.metadata.reserveInflight.isNone && recordBound ≤ j.store.metadata.reserve.toNat

def reconciled (sha256 : Hasher) (id : OperationId) (observation : Digest)
    (recovered : Bool) (j : WitnessJournal) : Bool :=
  match recover id j with
  | .error _ => false
  | .ok pending =>
    match reconcileObserved sha256 (.verified pending observation recovered) j with
    | (.error _, _) => false
    | (.ok _, j') =>
      (storedState j' id).any (fun st => st.state = stateComplete) && (j'.store.pending.get id).isNone

def EpochsSeparate (sha256 : Hasher) (st : OperationState) (epoch : UInt64) : Prop :=
  ∀ record, recordFromState st .recovery (.zero 16) = .ok record → ∀ e < epoch,
    requestBindingDigest sha256 { record with epoch := e }
      ≠ requestBindingDigest sha256 { record with epoch := epoch }

section Settled
variable {sha256 : Hasher} {config : JournalConfig} {l : Ledger} {j : WitnessJournal}
  {id : OperationId} {st : OperationState}

theorem Refines.storedState_eq (h : Refines sha256 config l j) (id : OperationId) :
    storedState j id = l.operations id := by
  rw [storedState, h.represents.operations]
  cases l.operations id with
  | none => rfl
  | some st =>
    rw [Option.map_some, Option.bind_some]
    exact OperationState.decode_encode st

theorem Refines.pending_eq_none (h : Refines sha256 config l j) {id : OperationId}
    (hp : l.pending id = none) : j.store.pending.get id = none := by
  rw [h.represents.pending, hp]
  rfl

theorem Refines.recover_eq (h : Refines sha256 config l j) {executionGeneration : UInt64}
    {recipe : RecoveryRecipe} (hp : l.pending id = some (executionGeneration, recipe))
    (hread : RecoveryRecipe.decode (recipe.encode executionGeneration)
      = some (executionGeneration, recipe)) :
    recover id j = .ok ⟨id, executionGeneration, recipe⟩ := by
  have hget : j.store.pending.get id = some (recipe.encode executionGeneration) := by
    rw [h.represents.pending, hp]
    rfl
  simp only [recover, hget, hread]

theorem provided_spec (h : Refines sha256 config l j) (hp : provided j = true) :
    Calm sha256 config l j.controls j ∧ j.controls.Recovering ∧ hasCapacity recordBound j = true ∧
      footprint config.journalId l.entries + 2 * (recordBound + 12) ≤ config.databaseLimit := by
  simp only [provided, h.records_eq, Bool.and_eq_true, decide_eq_true_eq, Bool.not_eq_true',
    Option.isNone_iff_eq_none, List.map_map, h.sameConfig] at hp
  obtain ⟨⟨⟨⟨⟨⟨hf, hq⟩, hroom⟩, hrun⟩, hstored⟩, hidle⟩, hreserve⟩ := hp
  exact ⟨⟨h, hf, rfl⟩, ⟨hrun, hstored, hidle, hreserve⟩, hq, hroom⟩

theorem identity_codes {received : WitnessRecord} {generation : UInt64}
    (h : st.identity = .received sha256 received generation) :
    st.action = received.action.code ∧ st.resourceKind = received.resourceKind.code :=
  ⟨congrArg OperationState.action h, congrArg OperationState.resourceKind h⟩

theorem action_code_eq_archiveWrite (a : WitnessAction) :
    a.code = WitnessAction.containerArchiveWrite.code ↔ a = .containerArchiveWrite := by
  cases a <;> decide

theorem kind_code_eq_rootlessMapping (k : WitnessResourceKind) :
    k.code = WitnessResourceKind.rootlessMapping.code ↔ k = .rootlessMapping := by
  cases k <;> decide

theorem reconciled_iff_of_traced {opened : OperationId → Option UInt64} {observation : Digest}
    {recovered : Bool} (h : Refines sha256 config l j) (ht : Traced sha256 l opened)
    (hst : l.operations id = some st) (hopen : st.state = stateAllowed ∨ st.state = stateUnknown)
    (hprovided : provided j = true) (hfresh : FreshEvents sha256 j id observation recovered st)
    (hsep : EpochsSeparate sha256 st l.epoch) :
    reconciled sha256 id observation recovered j = true ↔
      st.action ≠ WitnessAction.containerArchiveWrite.code ∧
      st.resourceKind ≠ WitnessResourceKind.rootlessMapping.code ∧ opened id = some l.epoch := by
  obtain ⟨received, generation, hident, hepoch, hle, hpending⟩ := ht.origin id st hst
  have hstarted : st.state ≠ stateComplete ∧ st.state ≠ stateReceived := by
    rcases hopen with hs | hs <;> rw [hs] <;> decide
  obtain ⟨executionGeneration, recipe, hp, haction, hread⟩ := hpending hstarted.1
  have hread := hread hstarted.2
  -- a recipe that was read when the decision was taken is not one of a container start
  have hstart : received.action ≠ .containerStart := by
    intro hbad
    rw [RecoveryRecipe.decode_encode, if_pos (.inr (haction.trans hbad))] at hread
    cases hread
  obtain ⟨hcalm, hrecovering, hq, hroom⟩ := provided_spec h hprovided
  rw [(identity_codes hident).1, (identity_codes hident).2, hepoch, Option.some.injEq, ne_eq, ne_eq,
    action_code_eq_archiveWrite, kind_code_eq_rootlessMapping]
  simp only [reconciled, h.recover_eq hp hread]
  constructor
  · intro hok
    have hmatches : wp (reconcileObserved sha256
        (.verified ⟨id, executionGeneration, recipe⟩ observation recovered)) _ _ j :=
      reconcileObserved_matches ⟨id, executionGeneration, recipe⟩ h hst hopen hident
    rw [wp] at hmatches
    split at hok
    · cases hok
    · rename_i heq
      rw [heq] at hmatches
      obtain ⟨hknown, hdigest⟩ := hmatches
      simp only [not_or] at hknown
      refine ⟨hknown.1.2, hknown.2, ?_⟩
      by_contra hne
      have hlt : received.epoch < l.epoch := UInt64.lt_of_le_of_ne hle hne
      have hrecord : recordFromState st .recovery (.zero 16)
          = .ok (rebuilt received st.decisionId .recovery (.zero 16)) := by
        rw [recordFromState_eq hident, if_neg (by simp [hknown])]
      exact hsep _ hrecord received.epoch hlt hdigest
  · rintro ⟨harchive, hmapping, hsame⟩
    have hdone := reconcileObserved_calm hcalm hst hopen hident hsame
      (by simp [hstart, harchive, hmapping]) hq hroom hfresh hrecovering hp hread
    rw [wp] at hdone
    split at hdone
    · rename_i heq
      obtain ⟨l', st', h', hst', hcomplete, hnone⟩ := hdone
      simp [heq, h'.storedState_eq, hst', hcomplete, h'.pending_eq_none hnone]
    · exact hdone.elim

end Settled

/-- After every run, an allowed or unknown operation can be reconciled exactly when its action
is not an archive write, its kind is not a rootless mapping, and the epoch is still the one it
was received in. -/
theorem run_reconciled_iff (sha256 : Hasher) (config : JournalConfig)
    (faults : Finset FaultPoint) (ops : List Operation) (id : OperationId) (st : OperationState)
    (observation : Digest) (recovered : Bool)
    (hst : storedState (runJournal sha256 ops (.create config faults)) id = some st)
    (hopen : st.state = stateAllowed ∨ st.state = stateUnknown)
    (hprovided : provided (runJournal sha256 ops (.create config faults)) = true)
    (hfresh : FreshEvents sha256 (runJournal sha256 ops (.create config faults)) id observation
      recovered st)
    (hsep : EpochsSeparate sha256 st (runJournal sha256 ops (.create config faults)).epoch) :
    reconciled sha256 id observation recovered (runJournal sha256 ops (.create config faults)) = true
      ↔ st.action ≠ WitnessAction.containerArchiveWrite.code ∧
        st.resourceKind ≠ WitnessResourceKind.rootlessMapping.code ∧
        openedEpoch sha256 ops (.create config faults) id
          = some (runJournal sha256 ops (.create config faults)).epoch := by
  obtain ⟨l, h, ht⟩ := run_traced sha256 config faults ops
  rw [h.storedState_eq] at hst
  rw [h.epoch] at hsep ⊢
  exact reconciled_iff_of_traced h ht hst hopen hprovided hfresh hsep

instance (sha256 : Hasher) (j : WitnessJournal) (id : OperationId) (observation : Digest)
    (recovered : Bool) (st : OperationState) :
    Decidable (FreshEvents sha256 j id observation recovered st) :=
  decidable_of_iff (_ ∧ _ ∧ _) ⟨fun h => ⟨h.1, h.2.1, h.2.2⟩, fun h => ⟨h.1, h.2, h.3⟩⟩

def allowedRun (recipe : RecoveryRecipe) : List Operation :=
  [.appendReceived (.fill 16 7) 1 recipe
    { plainRecord (.fill 16 7) (.fill 16 1) .requestReceived with action := recipe.originalAction },
  .appendDecision (.fill 16 7)
    { plainRecord (.fill 16 7) (.fill 16 2) .decision with action := recipe.originalAction }]

def allowedJournal (recipe : RecoveryRecipe) : WitnessJournal :=
  runJournal Sha256.sha256 (allowedRun recipe) (.create (.new (.zero 16) .required) ∅)

theorem epochsSeparate_one {sha256 : Hasher} {st : OperationState}
    (h : (recordFromState st .recovery (.zero 16)).toOption.all (fun r =>
      requestBindingDigest sha256 { r with epoch := 0 }
        ≠ requestBindingDigest sha256 { r with epoch := 1 }) = true) :
    EpochsSeparate sha256 st 1 := by
  intro record hrecord e he
  obtain rfl : e = 0 := by
    rw [UInt64.lt_iff_toNat_lt] at he
    exact UInt64.toNat_inj.mp (Nat.lt_one_iff.mp he)
  simpa [hrecord, Except.toOption] using h

theorem plain_request_reconciled :
    ∃ st ∈ storedState (allowedJournal plainRecipe) (.fill 16 7), st.state = stateAllowed ∧
      reconciled Sha256.sha256 (.fill 16 7) (.zero 32) true (allowedJournal plainRecipe) = true := by
  have hrun : ∃ st ∈ storedState (allowedJournal plainRecipe) (.fill 16 7),
      st.state = stateAllowed ∧ provided (allowedJournal plainRecipe) = true ∧
      FreshEvents Sha256.sha256 (allowedJournal plainRecipe) (.fill 16 7) (.zero 32) true st ∧
      st.action ≠ WitnessAction.containerArchiveWrite.code ∧
      st.resourceKind ≠ WitnessResourceKind.rootlessMapping.code ∧
      (allowedJournal plainRecipe).epoch = 1 ∧
      openedEpoch Sha256.sha256 (allowedRun plainRecipe) (.create (.new (.zero 16) .required) ∅)
        (.fill 16 7) = some (allowedJournal plainRecipe).epoch ∧
      (recordFromState st .recovery (.zero 16)).toOption.all (fun r =>
        requestBindingDigest Sha256.sha256 { r with epoch := 0 }
          ≠ requestBindingDigest Sha256.sha256 { r with epoch := 1 }) = true := by
    unfold allowedJournal
    rw [Sha256.sha256_eq_unrolled]
    decide +kernel
  obtain ⟨st, hst, hstate, hprovided, hfresh, haction, hkind, hepoch, hopened, hsep⟩ := hrun
  refine ⟨st, hst, hstate, ?_⟩
  refine (run_reconciled_iff Sha256.sha256 (.new (.zero 16) .required) ∅ (allowedRun plainRecipe)
    (.fill 16 7) st (.zero 32) true hst (.inl hstate) hprovided hfresh ?_).mpr
    ⟨haction, hkind, hopened⟩
  rw [allowedJournal] at hepoch
  rw [hepoch]
  exact epochsSeparate_one hsep

def archiveWriteRecipe : RecoveryRecipe :=
  { plainRecipe with
    originalAction := .containerArchiveWrite
    truthStrategy := .containerPresent
    inverse := rfl
    strategy := rfl }

theorem archive_write_not_reconciled :
    ∃ st ∈ storedState (allowedJournal archiveWriteRecipe) (.fill 16 7), st.state = stateAllowed ∧
      provided (allowedJournal archiveWriteRecipe) = true ∧
      FreshEvents Sha256.sha256 (allowedJournal archiveWriteRecipe) (.fill 16 7) (.zero 32) true st ∧
      reconciled Sha256.sha256 (.fill 16 7) (.zero 32) true (allowedJournal archiveWriteRecipe)
        = false := by
  unfold allowedJournal
  rw [Sha256.sha256_eq_unrolled]
  decide +kernel

end Ferrocrate.Witness

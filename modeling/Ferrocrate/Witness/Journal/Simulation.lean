import Ferrocrate.Witness.Journal.Refines

/-! Every operation of a journal is at most one step of the ledger it refines, under the
epoch the operation was started with, whether it returns or fails. -/
namespace Ferrocrate.Witness
open Lib Lib.Program Journal

def Advanced (sha256 : Hasher) (config : JournalConfig) (epoch : UInt64)
    (events : List LedgerEvent) (l : Ledger) (j : WitnessJournal) : Prop :=
  Refines sha256 config l j ∨
    ∃ e ∈ events, ∃ l', Ledger.Step sha256 config.journalId epoch e l l' ∧ Refines sha256 config l' j

namespace Refines
variable {sha256 : Hasher} {config : JournalConfig} {l : Ledger} {j : WitnessJournal}

theorem entries_put (h : Refines sha256 config l j) {key : UInt64} (value : Bytes)
    (hk : l.entries.length < key.toNat) :
    (j.store.records.put key value).entries = j.store.records.entries ++ [(key, value)] := by
  apply Tree.entries_put_of_gt
  intro e he
  have := h.represents.active_lt he
  show e.1.toNat < key.toNat
  omega

theorem fits (h : Refines sha256 config l j) {s : Store} {new : List (UInt64 × Bytes)}
    (hr : s.records.entries = j.store.records.entries ++ new)
    (hs : s.sealedSegments = j.store.sealedSegments) (hn : new.length ≤ (new.map (·.2.length)).sum)
    (hb : s.bytes ≤ config.databaseLimit) : l.entries.length + new.length ≤ Ledger.capacity := by
  have hold := h.represents.length_le_bytes
  have hlim : config.databaseLimit ≤ Ledger.capacity := config.databaseLimit_le
  simp only [Store.bytes, hr, hs, List.map_append, List.sum_append] at hb hold
  omega

theorem stamp_eq (h : Refines sha256 config l j) (epoch : UInt64) (r : WitnessRecord) :
    ({ r with epoch := epoch, sequence := j.head.1 + 1, previousHash := j.head.2 } : WitnessRecord)
      = l.stamp sha256 config.journalId epoch r :=
  h.represents.stamp_eq epoch r

theorem next_eq (h : Refines sha256 config l j) (epoch : UInt64) (r : WitnessRecord) :
    j.head.1 + 1 = (l.stamp sha256 config.journalId epoch r).sequence :=
  congrArg WitnessRecord.sequence (h.stamp_eq epoch r)

theorem fresh (h : Refines sha256 config l j) {e : Id} (he : ¬ j.store.events.contains e = true) :
    l.Fresh e := by
  rwa [h.represents.contains_event, not_not] at he

variable {id : OperationId} {state : OperationState}

section
variable (h : Refines sha256 config l j)
include h

theorem operation_eq {bytes : Bytes} (hg : j.store.operations.get id = some bytes)
    (hd : OperationState.decode bytes = some state) : l.operations id = some state := by
  rw [h.represents.operations] at hg
  obtain ⟨state', hs, rfl⟩ := Option.map_eq_some_iff.mp hg
  rw [OperationState.decode_encode] at hd
  rw [hs, hd]

theorem pending_eq {bytes : Bytes}
    {generation : UInt64} {recipe : RecoveryRecipe} (hg : j.store.pending.get id = some bytes)
    (hd : RecoveryRecipe.decode bytes = some (generation, recipe)) :
    l.pending id = some (generation, recipe) ∧
      RecoveryRecipe.decode (recipe.encode generation) = some (generation, recipe) := by
  rw [h.represents.pending] at hg
  obtain ⟨⟨g, r⟩, hp, rfl⟩ := Option.map_eq_some_iff.mp hg
  have hd' := hd
  simp only [RecoveryRecipe.decode_encode] at hd'
  split at hd'
  · cases hd'
  · cases hd'
    exact ⟨hp, hd⟩

theorem required
    (hs : l.operations id = some state) : config.mode = .required :=
  h.enabled id (by rw [hs]; rfl)

theorem put_operation (id : OperationId) (state : OperationState) :
    ∀ k, (j.store.operations.put id state.encode).get k
      = (Function.update l.operations id (some state) k).map OperationState.encode :=
  Tree.get_put_update h.represents.operations id state

theorem remove_pending (id : OperationId) :
    ∀ k, (j.store.pending.remove id).get k
      = (Function.update l.pending id none k).map fun q => q.2.encode q.1 :=
  Tree.get_remove_update h.represents.pending id

theorem stamp_toNat (epoch : UInt64) (r : WitnessRecord) :
    (l.stamp sha256 config.journalId epoch r).sequence.toNat = l.entries.length + 1 := by
  have hl := h.length_le
  have hc : Ledger.capacity = 2 ^ 48 := rfl
  show (UInt64.ofNat _).toNat = _
  rw [UInt64.toNat_ofNat']
  exact Nat.mod_eq_of_lt (by omega)

theorem commit {epoch : UInt64} {r : WitnessRecord} {m : Meta}
    {operations pending : Tree OperationId Bytes} {o : OperationId → Option OperationState}
    {p : OperationId → Option (UInt64 × RecoveryRecipe)} {s : Store}
    (hs : { j.store with
      records := j.store.records.put (l.stamp sha256 config.journalId epoch r).sequence
        (recordLayout config.journalId (l.stamp sha256 config.journalId epoch r))
      events := j.store.events.put r.eventId (l.stamp sha256 config.journalId epoch r).sequence
      operations := operations
      pending := pending
      metadata := m } = s) (hb : s.bytes ≤ j.config.databaseLimit) (hf : l.Fresh r.eventId)
    (hv : validRecord (l.stamp sha256 config.journalId epoch r) = true)
    (hms : m.headSequence = (l.stamp sha256 config.journalId epoch r).sequence)
    (hmh : m.headHash = recordHash sha256 config.journalId (l.stamp sha256 config.journalId epoch r))
    (hme : m.epoch = j.store.metadata.epoch)
    (hmc : m.currentSegment = j.store.metadata.currentSegment)
    (ho : ∀ id, operations.get id = (o id).map OperationState.encode)
    (hp : ∀ id, pending.get id = (p id).map fun q => q.2.encode q.1)
    (hen : ∀ id, (o id).isSome = true → config.mode = .required) :
    Refines sha256 config
      { l.extend (l.stamp sha256 config.journalId epoch r) with operations := o, pending := p }
      { j with store := s } := by
  rw [h.sameConfig] at hb
  have hkey := h.stamp_toNat epoch r
  have hpos := length_recordLayout_pos config.journalId (l.stamp sha256 config.journalId epoch r)
  have hfit := h.fits (by rw [← hs]; exact h.entries_put _ (by omega)) (by rw [← hs])
    (by simp; omega) hb
  subst hs
  exact ⟨h.sameConfig, h.represents.append hfit hf hv hms hmh hme hmc ho hp, h.epoch, hb, hen⟩

theorem stamp_second (epoch : UInt64) (r r' : WitnessRecord) :
    ({ r' with
        epoch := epoch
        sequence := j.head.1 + 2
        previousHash := recordHash sha256 config.journalId
          (l.stamp sha256 config.journalId epoch r) } : WitnessRecord)
      = (l.extend (l.stamp sha256 config.journalId epoch r)).stamp sha256 config.journalId epoch
          r' := by
  have hseq : j.head.1 + 2
      = UInt64.ofNat ((l.extend (l.stamp sha256 config.journalId epoch r)).entries.length + 1) := by
    rw [h.head_eq, Ledger.entries_extend, List.length_append, List.length_singleton,
      UInt64.ofNat_add, UInt64.ofNat_add, UInt64.add_assoc]
    rfl
  rw [hseq, ← Ledger.tip_extend l]
  rfl

theorem next_second (epoch : UInt64) (r r' : WitnessRecord) :
    j.head.1 + 2 = ((l.extend (l.stamp sha256 config.journalId epoch r)).stamp sha256
      config.journalId epoch r').sequence :=
  congrArg WitnessRecord.sequence (h.stamp_second epoch r r')

theorem commit_pair {epoch : UInt64} {r r' : WitnessRecord}
    {x x' : WitnessRecord} (hx : l.stamp sha256 config.journalId epoch r = x)
    (hx' : (l.extend x).stamp sha256 config.journalId epoch r' = x')
    {operations pending : Tree OperationId Bytes} {o : OperationId → Option OperationState}
    {p : OperationId → Option (UInt64 × RecoveryRecipe)} {s : Store}
    (hs : { j.store with
      records := (j.store.records.put x.sequence (recordLayout config.journalId x)).put x'.sequence
        (recordLayout config.journalId x')
      events := (j.store.events.put r.eventId x.sequence).put r'.eventId x'.sequence
      operations := operations
      pending := pending
      metadata := { j.store.metadata with
        headSequence := x'.sequence
        headHash := recordHash sha256 config.journalId x' } } = s)
    (hb : s.bytes ≤ j.config.databaseLimit) (hf : l.Fresh r.eventId) (hf' : l.Fresh r'.eventId)
    (hne : r.eventId ≠ r'.eventId) (hv : validRecord x = true) (hv' : validRecord x' = true)
    (ho : ∀ id, operations.get id = (o id).map OperationState.encode)
    (hp : ∀ id, pending.get id = (p id).map fun q => q.2.encode q.1)
    (hen : ∀ id, (o id).isSome = true → config.mode = .required) :
    Refines sha256 config { (l.extend x).extend x' with operations := o, pending := p }
      { j with store := s } := by
  rw [h.sameConfig] at hb
  have hkey : x.sequence.toNat = l.entries.length + 1 := hx ▸ h.stamp_toNat epoch r
  have hkey' : x'.sequence.toNat = l.entries.length + 2 := by
    have hl := h.length_le
    have hc : Ledger.capacity = 2 ^ 48 := rfl
    rw [← hx']
    show (UInt64.ofNat ((l.entries ++ [x]).length + 1)).toNat = _
    rw [UInt64.toNat_ofNat', List.length_append, List.length_singleton]
    exact Nat.mod_eq_of_lt (by omega)
  have hpos := length_recordLayout_pos config.journalId x
  have hpos' := length_recordLayout_pos config.journalId x'
  have hentries : s.records.entries = j.store.records.entries
      ++ [(x.sequence, recordLayout config.journalId x),
        (x'.sequence, recordLayout config.journalId x')] := by
    rw [← hs]
    show (Tree.put (Tree.put _ _ _) _ _).entries = _
    rw [Tree.entries_put_of_gt, h.entries_put _ (by omega), List.append_assoc]
    · rfl
    · intro e he
      rw [h.entries_put _ (by omega)] at he
      show e.1.toNat < x'.sequence.toNat
      rcases List.mem_append.mp he with he | he
      · have := h.represents.active_lt he
        omega
      · rw [List.mem_singleton.mp he]
        show x.sequence.toNat < _
        omega
  have hfit := h.fits hentries (by rw [← hs]) (by simp; omega) hb
  simp only [List.length_cons, List.length_nil] at hfit
  have hfresh' : (l.extend x).Fresh r'.eventId := by
    have hxe : x.eventId = r.eventId := by rw [← hx]; rfl
    simp only [Ledger.Fresh, Ledger.entries_extend, List.map_append, List.mem_append,
      List.map_cons, List.map_nil, List.mem_singleton, not_or, hxe]
    exact ⟨hf', hne.symm⟩
  subst hs
  subst hx
  subst hx'
  -- the first record alone, with the trees of the operation as they were
  have hfirst := h.represents.append (by omega) hf hv
    (m := { j.store.metadata with
      headSequence := (l.stamp sha256 config.journalId epoch r).sequence
      headHash := recordHash sha256 config.journalId (l.stamp sha256 config.journalId epoch r) })
    rfl rfl rfl rfl h.represents.operations h.represents.pending
  have hsecond : (l.extend (l.stamp sha256 config.journalId epoch r)).entries.length + 1
      ≤ Ledger.capacity := by
    rw [Ledger.entries_extend, List.length_append, List.length_singleton]
    omega
  exact ⟨h.sameConfig, hfirst.append hsecond hfresh' hv' rfl rfl rfl rfl ho hp,
    h.epoch, hb, hen⟩

end

end Refines

theorem Ledger.Step.advanced {sha256 : Hasher} {config : JournalConfig} {epoch : UInt64}
    {e : LedgerEvent} {events : List LedgerEvent} {l l' : Ledger}
    (hs : Ledger.Step sha256 config.journalId epoch e l l') (he : e ∈ events) {j : WitnessJournal}
    (h : Refines sha256 config l' j) : Advanced sha256 config epoch events l j :=
  .inr ⟨e, he, l', hs, h⟩

namespace Journal
variable {sha256 : Hasher} {config : JournalConfig} {l : Ledger} {j : WitnessJournal}
  {id : OperationId} {boundary : FlushBoundary}

theorem wp_acknowledged {Q E : WitnessJournal → Prop}
    (h : Refines sha256 config l j) (hQ : ∀ j, Refines sha256 config l j → Q j)
    (hE : ∀ j, Refines sha256 config l j → E j) :
    wp (flush boundary id) (fun _ s => wp updateReadMirrorBestEffort
      (fun _ s => wp postAckRotation (fun _ => Q) (fun _ => E) s) (fun _ => E) s)
      (fun _ => E) j := by
  refine wp_mono (flush_quiet _ _ sha256 config l j h) (fun _ j h => ?_) (fun _ => hE)
  refine wp_mono (updateReadMirrorBestEffort_quiet sha256 config l j h) (fun _ j h => ?_)
    (fun _ => hE)
  exact wp_mono (postAckRotation_quiet sha256 config l j h) (fun _ => hQ) (fun _ => hE)

theorem wp_acknowledge {P : WitnessJournal → Prop}
    (h : Refines sha256 config l j) (hP : ∀ j, Refines sha256 config l j → P j) :
    wp (flush boundary id) (fun _ s => wp updateReadMirrorBestEffort
      (fun _ s => wp postAckRotation (fun _ => P) (fun _ => P) s) (fun _ => P) s)
      (fun _ => P) j :=
  wp_acknowledged h hP hP

theorem appendReceivedAt_advanced (epoch : UInt64) (id : OperationId) (generation : UInt64)
    (recipe : RecoveryRecipe) (record : WitnessRecord) (h : Refines sha256 config l j) :
    wp (appendReceivedAt sha256 epoch id generation recipe record)
      (fun _ => Advanced sha256 config epoch [.received id record] l)
      (fun _ => Advanced sha256 config epoch [.received id record] l) j := by
  simp only [appendReceivedAt, wp_bind, wp_rejectIf, wp_get, wp_ofExcept, wp_transaction,
    Except.ite_error_eq_ok, ne_eq, not_or, not_not]
  refine ⟨fun _ => .inl h, fun hstage => ⟨fun _ => .inl h, ?_⟩⟩
  rintro ⟨hdigest, hgeneration, haction, hkind⟩
  refine wp_mono (wp_preflight_required h) ?_ (fun _ _ h => .inl h)
  rintro _ j ⟨h, hmode⟩
  refine ⟨fun _ => .inl h, fun _ => ?_⟩
  rw [h.stamp_eq epoch record, h.next_eq epoch record, h.sameConfig]
  refine ⟨fun bytes hbytes => ?_, fun _ _ => .inl h⟩
  obtain ⟨hvalid, -, rfl⟩ := (encodeRecord_ok_iff _ _ _).mp hbytes
  refine wp_mono (ensureUserCapacity_quiet _ sha256 config l j h) ?_ (fun _ _ h => .inl h)
  intro _ j h
  refine ⟨?_, fun _ _ => .inl h⟩
  rintro s ⟨-, hnew, hfresh, hs⟩
  refine ⟨fun hroom => ?_, fun _ => .inl h⟩
  have hnone : l.operations id = none := by
    rw [Tree.contains, h.represents.operations id] at hnew
    simpa using hnew
  have hcommit := h.commit (Except.ok.inj hs) hroom (h.fresh hfresh) hvalid rfl rfl rfl rfl
    (h.put_operation id _) (Tree.get_put_update h.represents.pending id (generation, recipe))
    (fun _ _ => hmode)
  exact wp_acknowledge hcommit fun _ => Ledger.Step.advanced
    (.received hstage hdigest hgeneration haction hkind hnone (h.fresh hfresh) hvalid)
    (List.mem_singleton.mpr rfl)

theorem appendDecisionAt_advanced (epoch : UInt64) (id : OperationId) (record : WitnessRecord)
    (h : Refines sha256 config l j) :
    wp (appendDecisionAt sha256 epoch id record)
      (fun _ => Advanced sha256 config epoch [.decided id] l)
      (fun _ => Advanced sha256 config epoch [.decided id] l) j := by
  simp only [appendDecisionAt, appendDecisionRecord, wp_bind, wp_rejectIf, wp_get, wp_okOr,
    wp_ofExcept, wp_transaction, wp_pure, Except.ite_error_eq_ok, ne_eq, not_not]
  refine ⟨fun _ => .inl h, fun hstage => ?_⟩
  refine wp_mono (preflight_quiet _ sha256 config l j h) ?_ (fun _ _ h => .inl h)
  intro _ j h
  refine ⟨fun pending hpending => ⟨fun gr hrecipe => ⟨fun stateBytes hget => ⟨fun state hstate => ?_,
    fun _ => .inl h⟩, fun _ => .inl h⟩, fun _ => .inl h⟩, fun _ => .inl h⟩
  obtain ⟨generation, recipe⟩ := gr
  obtain ⟨hpend, hreadable⟩ := h.pending_eq hpending hrecipe
  have hoperation := h.operation_eq hget hstate
  refine ⟨fun _ => .inl h, fun hbefore => ⟨fun _ => .inl h, fun hbinding => ⟨fun _ => .inl h,
    fun hdecision => ⟨fun decisionId hid => ?_, fun _ => .inl h⟩⟩⟩⟩
  rw [h.stamp_eq epoch record, h.next_eq epoch record, h.sameConfig]
  refine ⟨fun bytes hbytes => ?_, fun _ _ => .inl h⟩
  obtain ⟨hvalid, -, rfl⟩ := (encodeRecord_ok_iff _ _ _).mp hbytes
  refine wp_mono (ensureUserCapacity_quiet _ sha256 config l j h) ?_ (fun _ _ h => .inl h)
  intro _ j h
  refine ⟨?_, fun _ => .inl h⟩
  intro decisionId' hid'
  obtain rfl : decisionId = decisionId' := Option.some.inj (hid.symm.trans hid')
  refine ⟨?_, fun _ _ => .inl h⟩
  rintro s ⟨-, hfresh, hs⟩
  refine ⟨fun hroom => ?_, fun _ => .inl h⟩
  have hcommit := h.commit (Except.ok.inj hs) hroom (h.fresh hfresh) hvalid rfl rfl rfl rfl
    (h.put_operation id _) h.represents.pending (fun _ _ => h.required hoperation)
  exact wp_acknowledge hcommit fun _ => Ledger.Step.advanced
    (.decided hstage hpend hreadable hoperation hbefore (eq_true_of_ne_false hbinding) hdecision hid
      (h.fresh hfresh) hvalid) (List.mem_singleton.mpr rfl)

structure Completed (sha256 : Hasher) (config : JournalConfig) (epoch : UInt64)
    (id : OperationId) (record : WitnessRecord) (l l' : Ledger) : Prop where
  stage : record.stage = .outcome
  step : ∃ e ∈ [LedgerEvent.outcome id, .unknown id],
    Ledger.Step sha256 config.journalId epoch e l l'
  entries : l'.entries = l.entries ++ [l.stamp sha256 config.journalId epoch record]
  before : ∃ state, l.operations id = some state ∧ state.state = stateAllowed
  closed : ∃ state, l'.operations id = some state ∧ state.state ≠ stateAllowed
  others : ∀ other, other ≠ id → l'.operations other = l.operations other

variable {record : WitnessRecord}

theorem Completed.advanced {epoch : UInt64} {l' : Ledger}
    (h : Completed sha256 config epoch id record l l') (hj : Refines sha256 config l' j) :
    Advanced sha256 config epoch [.outcome id, .unknown id] l j := by
  obtain ⟨e, he, hstep⟩ := h.step
  exact hstep.advanced he hj

theorem completeChecked_completed (id : OperationId) {state : OperationState} (forcedUnknown : Bool) (hstage : record.stage = .outcome)
    (hoperation : l.operations id = some state) (hbefore : state.state = stateAllowed)
    (hterminal : state.terminalMatches sha256 record = true) (h : Refines sha256 config l j) :
    wp (completeChecked sha256 id state record forcedUnknown)
      (fun _ j => forcedUnknown = false ∧ ∃ l', Completed sha256 config record.epoch id record l l' ∧
        Refines sha256 config l' j)
      (fun _ => Advanced sha256 config record.epoch [.outcome id, .unknown id] l) j := by
  simp only [completeChecked, wp_bind, wp_get, wp_ofExcept, wp_transaction, wp_ite, wp_throw,
    Except.ite_error_eq_ok, ne_eq, not_not]
  simp only [h.stamp_eq record.epoch record]
  simp only [h.next_eq record.epoch record, h.sameConfig]
  refine ⟨fun bytes hbytes => ?_, fun _ _ => .inl h⟩
  obtain ⟨hvalid, -, rfl⟩ := (encodeRecord_ok_iff _ _ _).mp hbytes
  refine wp_mono (ensureUserCapacity_quiet _ sha256 config l j h) ?_ (fun _ _ h => .inl h)
  intro _ j h
  refine ⟨?_, fun _ _ => .inl h⟩
  rintro s ⟨-, hpending, hfresh, hs⟩
  refine ⟨fun hroom => ?_, fun _ => .inl h⟩
  have hpend : (l.pending id).isSome = true := by
    rw [h.represents.pending] at hpending
    cases hp : l.pending id with
    | none => simp [hp] at hpending
    | some q => rfl
  obtain ⟨l', hrefines, hcompleted⟩ : ∃ l', Refines sha256 config l' { j with store := s } ∧
      Completed sha256 config record.epoch id record l l' := by
    by_cases hu : record.outcome = .outcomeUnknown
    · simp only [hu, if_true] at hs
      have hcommit := h.commit (Except.ok.inj hs) hroom (h.fresh hfresh) hvalid rfl rfl rfl rfl
        (h.put_operation id _) h.represents.pending (fun _ _ => h.required hoperation)
      refine ⟨_, hcommit, ⟨hstage, ⟨_, by simp, .unknown hstage hu hoperation hbefore hterminal
        (h.fresh hfresh) hvalid⟩, rfl, ⟨state, hoperation, hbefore⟩, ⟨_, Function.update_self .., ?_⟩,
        fun other hne => Function.update_of_ne hne ..⟩⟩
      show stateUnknown ≠ stateAllowed
      decide
    · simp only [hu, if_false] at hs
      have hcommit := h.commit (Except.ok.inj hs) hroom (h.fresh hfresh) hvalid rfl rfl rfl rfl
        (h.put_operation id _) (h.remove_pending id) (fun _ _ => h.required hoperation)
      refine ⟨_, hcommit, ⟨hstage, ⟨_, by simp, .outcome hstage hu hoperation hbefore hpend hterminal
        (h.fresh hfresh) hvalid⟩, rfl, ⟨state, hoperation, hbefore⟩, ⟨_, Function.update_self .., ?_⟩,
        fun other hne => Function.update_of_ne hne ..⟩⟩
      show stateComplete ≠ stateAllowed
      decide
  refine ⟨fun _ => ?_, fun hforced => ?_⟩
  · exact wp_mono (updateReadMirrorBestEffort_quiet sha256 config l' _ hrefines)
      (fun _ _ => hcompleted.advanced) (fun _ _ => hcompleted.advanced)
  · exact wp_acknowledged hrefines (fun _ h => ⟨eq_false_of_ne_true hforced, l', hcompleted, h⟩)
      (fun _ => hcompleted.advanced)

theorem completeAt_completed (epoch : UInt64) (intent : DurableIntent) (record : WitnessRecord)
    (h : Refines sha256 config l j) :
    wp (completeAt sha256 epoch intent record)
      (fun _ j => ∃ l', Completed sha256 config epoch intent.operationId record l l' ∧
        Refines sha256 config l' j)
      (fun _ => Advanced sha256 config epoch
        [.outcome intent.operationId, .unknown intent.operationId] l) j := by
  simp only [completeAt, wp_bind, wp_rejectIf, wp_get, wp_okOr, wp_takeFault, wp_ite, ne_eq,
    not_or, not_not]
  refine ⟨fun _ => .inl h, fun hstage => ?_⟩
  refine wp_mono (preflight_quiet _ sha256 config l j h) ?_ (fun _ _ h => .inl h)
  intro _ j h
  refine ⟨fun _ => .inl h, fun _ => ⟨fun stateBytes hget => ⟨fun state hstate => ⟨fun _ => .inl h,
    ?_⟩, fun _ => .inl h⟩, fun _ => .inl h⟩⟩
  rintro ⟨hbefore, -⟩
  have hoperation := h.operation_eq hget hstate
  refine ⟨fun _ => .inl h, fun hterminal => ?_⟩
  -- the fault that makes the outcome unknown is cleared, whether it was set or not
  replace h := h.of_handle (j.faults.erase (.beforeFlush .outcome)) j.automationStopped j.stopMarker
    j.reserveFile j.mirror
  have hterminal := eq_true_of_ne_false hterminal
  constructor
  · intro _
    refine wp_mono (completeChecked_completed _ true hstage hoperation hbefore hterminal h)
      (fun _ _ h => ?_) (fun _ _ h => h)
    cases h.1
  · intro _
    refine wp_mono (completeChecked_completed _ false hstage hoperation hbefore hterminal h)
      (fun _ _ h => ?_) (fun _ _ h => h)
    obtain ⟨-, l', hc, hj⟩ := h
    exact ⟨l', ⟨hc.stage, hc.step, hc.entries, hc.before, hc.closed, hc.others⟩, hj⟩

theorem completeAt_advanced (epoch : UInt64) (intent : DurableIntent) (record : WitnessRecord)
    (h : Refines sha256 config l j) :
    wp (completeAt sha256 epoch intent record)
      (fun _ => Advanced sha256 config epoch
        [.outcome intent.operationId, .unknown intent.operationId] l)
      (fun _ => Advanced sha256 config epoch
        [.outcome intent.operationId, .unknown intent.operationId] l) j := by
  refine wp_mono (completeAt_completed epoch intent record h) (fun _ _ h => ?_) (fun _ _ h => h)
  obtain ⟨l', hcompleted, hj⟩ := h
  exact hcompleted.advanced hj

theorem recordOutcomeUnknownAt_advanced (epoch : UInt64) (id : OperationId) (record : WitnessRecord)
    (h : Refines sha256 config l j) :
    wp (recordOutcomeUnknownAt sha256 epoch id record)
      (fun _ => Advanced sha256 config epoch [.unknown id] l)
      (fun _ => Advanced sha256 config epoch [.unknown id] l) j := by
  simp only [recordOutcomeUnknownAt, wp_bind, wp_rejectIf, wp_get, wp_okOr, wp_ofExcept,
    wp_transaction, wp_ite, wp_throw, Except.ite_error_eq_ok, ne_eq, not_or, not_not]
  refine ⟨fun _ => .inl h, ?_⟩
  rintro ⟨hstage, hunknown⟩
  refine wp_mono (preflight_quiet _ sha256 config l j h) ?_ (fun _ _ h => .inl h)
  intro _ j h
  refine ⟨fun stateBytes hget => ⟨fun state hstate => ⟨fun _ => ?_, fun _ => ⟨fun _ => .inl h, ?_⟩⟩,
    fun _ => .inl h⟩, fun _ => .inl h⟩
  · exact wp_mono (flush_quiet _ _ sha256 config l j h) (fun _ _ h => .inl h) (fun _ _ h => .inl h)
  rintro ⟨hbefore, hterminal⟩
  have hoperation := h.operation_eq hget hstate
  rw [h.stamp_eq epoch record, h.next_eq epoch record, h.sameConfig]
  refine ⟨fun bytes hbytes => ?_, fun _ _ => .inl h⟩
  obtain ⟨hvalid, -, rfl⟩ := (encodeRecord_ok_iff _ _ _).mp hbytes
  refine wp_mono (ensureUserCapacity_quiet _ sha256 config l j h) ?_ (fun _ _ h => .inl h)
  intro _ j h
  refine ⟨?_, fun _ _ => .inl h⟩
  rintro s ⟨-, hfresh, hs⟩
  refine ⟨fun hroom => ?_, fun _ => .inl h⟩
  have hcommit := h.commit (Except.ok.inj hs) hroom (h.fresh hfresh) hvalid rfl rfl rfl rfl
    (h.put_operation id _) h.represents.pending (fun _ _ => h.required hoperation)
  have hadv : ∀ j, Refines sha256 config _ j → Advanced sha256 config epoch [.unknown id] l j :=
    fun _ => Ledger.Step.advanced (.unknown hstage hunknown hoperation hbefore
      (eq_true_of_ne_false hterminal) (h.fresh hfresh) hvalid) (List.mem_singleton.mpr rfl)
  refine wp_mono (flush_quiet _ _ sha256 config _ _ hcommit) (fun _ j h => ?_) (fun _ => hadv)
  exact wp_mono (postAckRotation_quiet sha256 config _ _ h) (fun _ => hadv) (fun _ => hadv)

theorem completeRecoveryAt_advanced (epoch : UInt64) (id : OperationId) (record : WitnessRecord)
    (h : Refines sha256 config l j) :
    wp (completeRecoveryAt sha256 epoch id record)
      (fun _ => Advanced sha256 config epoch [.recovered id] l)
      (fun _ => Advanced sha256 config epoch [.recovered id] l) j := by
  simp only [completeRecoveryAt, wp_bind, wp_rejectIf, wp_get, wp_okOr, wp_ofExcept, wp_transaction,
    wp_attempt, wp_throw, Except.ite_error_eq_ok, ne_eq, not_or, not_not]
  refine ⟨fun _ => .inl h, fun _ => ⟨fun _ => .inl h, fun hstage => ⟨fun stateBytes hget =>
    ⟨fun state hstate => ⟨fun _ => .inl h, ?_⟩, fun _ => .inl h⟩, fun _ => .inl h⟩⟩⟩
  rintro ⟨hbefore, hterminal, hlink⟩
  have hoperation := h.operation_eq hget hstate
  simp only [h.stamp_eq epoch record]
  simp only [h.next_eq epoch record, h.sameConfig]
  refine ⟨fun bytes hbytes => ⟨fun _ => .inl h, fun _ => ?_⟩, fun _ _ => .inl h⟩
  obtain ⟨hvalid, -, rfl⟩ := (encodeRecord_ok_iff _ _ _).mp hbytes
  refine wp_mono (beginCleanupReservation_quiet _ _ sha256 config l j h) ?_ (fun _ _ h => .inl h)
  intro reserveAfter j h
  refine wp_mono (stopAt_quiet _ sha256 config l j h) (fun _ j h => ?_) (fun _ _ h => .inl h)
  refine wp_mono (stopAt_quiet _ sha256 config l j h) (fun _ j h => ?_) (fun _ _ h => .inl h)
  refine ⟨?_, fun _ _ => .inl h⟩
  rintro s ⟨-, hfresh, hs⟩
  refine ⟨fun hroom => ?_, fun _ => .inl h⟩
  have hcommit := h.commit (Except.ok.inj hs) hroom (h.fresh hfresh) hvalid rfl rfl rfl rfl
    (h.put_operation id _) (h.remove_pending id) (fun _ _ => h.required hoperation)
  have hadv : ∀ j, Refines sha256 config _ j → Advanced sha256 config epoch [.recovered id] l j :=
    fun _ => Ledger.Step.advanced (.recovered hstage hoperation hbefore
      (eq_true_of_ne_false hterminal) hlink (h.fresh hfresh) hvalid) (List.mem_singleton.mpr rfl)
  refine wp_mono (flush_quiet _ _ sha256 config _ _ hcommit) (fun _ j h => ?_) (fun _ j h => ?_)
  · refine wp_mono (finishCleanupReservation_quiet _ sha256 config _ _ h) (fun _ j h => ?_)
      (fun _ => hadv)
    exact wp_mono (postAckRotation_quiet sha256 config _ _ h) (fun _ => hadv) (fun _ => hadv)
  · exact wp_mono (stopAutomation_quiet sha256 config _ _ h) (fun _ => hadv) (fun _ => hadv)

theorem denyAt_advanced (epoch : UInt64) (id : OperationId) (decision denied : WitnessRecord)
    (h : Refines sha256 config l j) :
    wp (denyAt sha256 epoch id decision denied)
      (fun _ => Advanced sha256 config epoch [.denied id] l)
      (fun _ => Advanced sha256 config epoch [.denied id] l) j := by
  simp only [denyAt, wp_bind, wp_rejectIf, wp_get, wp_okOr, wp_ofExcept, wp_transaction,
    Except.ite_error_eq_ok, ne_eq, not_or, not_not]
  refine ⟨fun _ => .inl h, ?_⟩
  rintro ⟨hstage, hanswer, hdenied⟩
  refine wp_mono (preflight_quiet _ sha256 config l j h) ?_ (fun _ _ h => .inl h)
  intro _ j h
  refine ⟨fun stateBytes hget => ⟨fun state hstate => ⟨fun _ => .inl h, ?_⟩, fun _ => .inl h⟩,
    fun _ => .inl h⟩
  rintro ⟨hbefore, hbinding, hbinding', hsame⟩
  have hoperation := h.operation_eq hget hstate
  simp only [h.stamp_eq epoch decision, h.sameConfig]
  refine ⟨fun bytes hbytes => ?_, fun _ _ => .inl h⟩
  obtain ⟨hvalid, -, rfl⟩ := (encodeRecord_ok_iff _ _ _).mp hbytes
  have hhash : hashRecord sha256 ⟨config.journalId,
      recordLayout config.journalId (l.stamp sha256 config.journalId epoch decision)⟩
      = recordHash sha256 config.journalId (l.stamp sha256 config.journalId epoch decision) := rfl
  simp only [hhash, h.stamp_second epoch decision denied]
  simp only [h.next_eq epoch decision, h.next_second epoch decision denied]
  refine ⟨fun bytes' hbytes' => ?_, fun _ _ => .inl h⟩
  obtain ⟨hvalid', -, rfl⟩ := (encodeRecord_ok_iff _ _ _).mp hbytes'
  refine wp_mono (ensureUserCapacity_quiet _ sha256 config l j h) ?_ (fun _ _ h => .inl h)
  intro _ j h
  refine ⟨?_, fun _ _ => .inl h⟩
  rintro s ⟨-, ⟨hfresh, hfresh', hdistinct⟩, hs⟩
  refine ⟨fun hroom => ?_, fun _ => .inl h⟩
  have hcommit := h.commit_pair rfl rfl (Except.ok.inj hs) hroom (h.fresh hfresh) (h.fresh hfresh')
    hdistinct hvalid hvalid' (h.put_operation id _) (h.remove_pending id)
    (fun _ _ => h.required hoperation)
  exact wp_acknowledge hcommit fun _ => Ledger.Step.advanced
    (.denied hstage hanswer hdenied hoperation hbefore (eq_true_of_ne_false hbinding)
      (eq_true_of_ne_false hbinding') hsame (h.fresh hfresh) (h.fresh hfresh') hdistinct hvalid
      hvalid') (List.mem_singleton.mpr rfl)

structure Published (sha256 : Hasher) (config : JournalConfig) (l : Ledger)
    (record : WitnessRecord) (j : WitnessJournal) : Prop where
  stage : record.stage = .checkpointPublished
  epoch : record.epoch = l.epoch
  fresh : l.Fresh record.eventId
  valid : validRecord (l.stamp sha256 config.journalId l.epoch record) = true
  refines : Refines sha256 config (l.extend (l.stamp sha256 config.journalId l.epoch record)) j
  active : j.store.records.get (l.stamp sha256 config.journalId l.epoch record).sequence
    = some (recordLayout config.journalId (l.stamp sha256 config.journalId l.epoch record))

theorem Published.advanced (h : Published sha256 config l record j) :
    Advanced sha256 config l.epoch [.published] l j :=
  Ledger.Step.advanced (.published h.stage h.fresh h.valid) (List.mem_singleton.mpr rfl) h.refines

theorem publishLocked_published (artifactDigest : Digest) (record : WitnessRecord)
    (hstage : record.stage = .checkpointPublished) (h : Refines sha256 config l j) :
    wp (publishLocked sha256 artifactDigest record)
      (fun _ j' => (Refines sha256 config l j' ∧ ¬l.Fresh record.eventId) ∨
        Published sha256 config l record j')
      (fun _ j' => Refines sha256 config l j' ∨ Published sha256 config l record j') j := by
  simp only [publishLocked, wp_bind, wp_rejectIf, wp_get, ne_eq, not_not]
  refine ⟨fun _ => .inl h, fun hepoch => ?_⟩
  rw [h.epoch] at hepoch
  cases hevent : j.store.events.get record.eventId with
  | some sequence =>
    have hknown : ¬l.Fresh record.eventId :=
      (h.represents.contains_event _).mp (by simp [Tree.contains, hevent])
    simp only [wp_bind, wp_okOr, wp_ofExcept, wp_rejectIf]
    exact ⟨fun _ _ => ⟨fun _ _ => ⟨fun _ => .inl h, fun _ => .inl ⟨h, hknown⟩⟩,
      fun _ _ => .inl h⟩, fun _ => .inl h⟩
  | none =>
    simp only [wp_bind, wp_get, wp_okOr, wp_ofExcept, wp_transaction, Except.ite_error_eq_ok, not_not]
    refine wp_mono (preflight_quiet _ sha256 config l j h) (fun _ j h => ?_) (fun _ _ h => .inl h)
    refine wp_mono (failAt_quiet _ _ sha256 config l j h) (fun _ j h => ?_) (fun _ _ h => .inl h)
    refine ⟨fun next hnext => ?_, fun _ => .inl h⟩
    obtain rfl : next = j.head.1 + 1 := checkedAdd_eq hnext
    simp only [h.stamp_eq record.epoch record]
    simp only [h.next_eq record.epoch record, h.sameConfig, hepoch]
    refine ⟨fun bytes hbytes => ?_, fun _ _ => .inl h⟩
    obtain ⟨hvalid, -, rfl⟩ := (encodeRecord_ok_iff _ _ _).mp hbytes
    refine wp_mono (ensureUserCapacity_quiet _ sha256 config l j h) ?_ (fun _ _ h => .inl h)
    intro _ j h
    refine ⟨?_, fun _ _ => .inl h⟩
    rintro s ⟨-, hfresh, hs⟩
    refine ⟨fun hroom => ?_, fun _ => .inl h⟩
    have hs := Except.ok.inj hs
    have hcommit := h.commit hs hroom (h.fresh hfresh) hvalid rfl rfl rfl rfl
      h.represents.operations h.represents.pending h.enabled
    have hpublished : Published sha256 config l record { j with store := s } :=
      ⟨hstage, hepoch, h.fresh hfresh, hvalid, hcommit, by rw [← hs]; exact Tree.get_put_self _ _ _⟩
    have hmirror : ∀ j mirror, Published sha256 config l record j →
        Published sha256 config l record { j with mirror := mirror } :=
      fun _ _ h => { h with refines := h.refines.of_handle _ _ _ _ _ }
    refine wp_mono (flush_preserves (fun _ _ h => { h with
      refines := h.refines.of_handle _ _ _ _ _ }) _ _ _ hpublished) (fun _ j h => ?_)
      (fun _ _ h => .inr h)
    exact wp_mono (updateReadMirrorBestEffort_returns hmirror h) (fun _ _ h => .inr h)
      (fun _ _ hf => hf.elim)

theorem appendCheckpointPublication_published (artifactDigest : Digest) (record : WitnessRecord)
    (h : Refines sha256 config l j) :
    wp (appendCheckpointPublication sha256 artifactDigest record)
      (fun _ j' => record.action = .checkpointPublish ∧
        ((Refines sha256 config l j' ∧ ¬l.Fresh record.eventId) ∨
          Published sha256 config l { record with resultDigest := some artifactDigest } j'))
      (fun _ j' => Refines sha256 config l j' ∨ record.action = .checkpointPublish ∧
        Published sha256 config l { record with resultDigest := some artifactDigest } j') j := by
  simp only [appendCheckpointPublication, wp_bind, wp_rejectIf, wp_ofExcept, ne_eq, not_or,
    not_not]
  refine ⟨fun _ => .inl h, ?_⟩
  rintro ⟨hstage, haction, -⟩
  refine ⟨fun _ _ => ?_, fun _ _ => .inl h⟩
  exact wp_mono (publishLocked_published artifactDigest
    { record with resultDigest := some artifactDigest } hstage h)
    (fun _ _ hr => ⟨haction, hr⟩) (fun _ _ hr => hr.imp_right fun hp => ⟨haction, hp⟩)

theorem appendCheckpointPublication_advanced (artifactDigest : Digest) (record : WitnessRecord)
    (h : Refines sha256 config l j) :
    wp (appendCheckpointPublication sha256 artifactDigest record)
      (fun _ => Advanced sha256 config l.epoch [.published] l)
      (fun _ => Advanced sha256 config l.epoch [.published] l) j := by
  refine wp_mono (appendCheckpointPublication_published artifactDigest record h) ?_ ?_
  · rintro _ j' ⟨-, ⟨hr, -⟩ | hp⟩
    · exact .inl hr
    · exact hp.advanced
  · rintro _ j' (hr | ⟨-, hp⟩)
    · exact .inl hr
    · exact hp.advanced

theorem wp_advanceEpoch (expected : UInt64) (h : Refines sha256 config l j) :
    wp (advanceEpoch expected)
      (fun next j' => checkedAdd l.epoch 1 = some next ∧
        Refines sha256 config { l with epoch := next } j')
      (fun _ => Refines sha256 config l) j := by
  simp only [advanceEpoch, wp_bind, wp_get, wp_rejectIf, wp_okOr, modifyMeta, wp_modify, wp_pure,
    ne_eq, not_not]
  refine ⟨fun _ => h, fun hexp => ⟨fun next hnext => ⟨?_, ?_⟩, fun _ => h⟩⟩
  · rw [← h.epoch, hexp, hnext]
  · obtain ⟨blocks, active, hent, hscan⟩ := h.represents.scan
    exact ⟨h.sameConfig, ⟨h.represents.wellFormed.of_entries rfl, ⟨blocks, active, hent,
      { hscan with }⟩, h.represents.headSequence, h.represents.headHash, rfl, h.represents.events,
      h.represents.operations, h.represents.pending⟩, rfl, h.room, h.enabled⟩

end Journal
end Ferrocrate.Witness

import Ferrocrate.Witness.Journal.Simulation

/-! Runs of journal operations, one at a time, in any order and with any faults. Each run
follows a ledger, and what is stored at its end is the ledger's chain of records. -/
namespace Ferrocrate.Witness
open Lib Lib.Program Journal

inductive Operation where
  | appendReceived (id : OperationId) (generation : UInt64) (recipe : RecoveryRecipe)
      (record : WitnessRecord)
  | appendDecision (id : OperationId) (record : WitnessRecord)
  | deny (id : OperationId) (decision denied : WitnessRecord)
  | complete (intent : DurableIntent) (record : WitnessRecord)
  | recordOutcomeUnknown (id : OperationId) (record : WitnessRecord)
  | completeRecovery (id : OperationId) (record : WitnessRecord)
  | appendCheckpointPublication (artifactDigest : Digest) (record : WitnessRecord)
  | maintain
  | advanceEpoch (expected : UInt64)
  | failOnce (point : FaultPoint)

namespace Operation
variable (sha256 : Hasher)

def call : Operation → Journaled Unit
  | appendReceived id generation recipe record =>
    Journal.appendReceived sha256 id generation recipe record
  | appendDecision id record => do
    let _ ← Journal.appendDecision sha256 id record
    pure ()
  | deny id decision denied => Journal.deny sha256 id decision denied
  | complete intent record => Journal.complete sha256 intent record
  | recordOutcomeUnknown id record => Journal.recordOutcomeUnknown sha256 id record
  | completeRecovery id record => Journal.completeRecovery sha256 id record
  | appendCheckpointPublication artifactDigest record =>
    Journal.appendCheckpointPublication sha256 artifactDigest record
  | maintain => Journal.maintain
  | advanceEpoch expected => do
    let _ ← Journal.advanceEpoch expected
    pure ()
  | failOnce point => modify fun j => { j with faults := insert point j.faults }

def apply (op : Operation) (j : WitnessJournal) : WitnessJournal := (op.call sha256).after j

def events : Operation → List LedgerEvent
  | appendReceived id _ _ record => [.received id record]
  | appendDecision id _ => [.decided id]
  | deny id _ _ => [.denied id]
  | complete intent _ => [.outcome intent.operationId, .unknown intent.operationId]
  | recordOutcomeUnknown id _ => [.unknown id]
  | completeRecovery id _ => [.recovered id]
  | appendCheckpointPublication _ _ => [.published]
  | maintain => []
  | advanceEpoch _ => []
  | failOnce _ => []

inductive Moves (journalId : Id) (op : Operation) (l : Ledger) : Ledger → Prop
  | idle : Moves journalId op l l
  | commit {e : LedgerEvent} {l' : Ledger} (mem : e ∈ op.events)
      (step : Ledger.Step sha256 journalId l.epoch e l l') : Moves journalId op l l'
  | advance {expected next : UInt64} (call : op = .advanceEpoch expected)
      (next_eq : checkedAdd l.epoch 1 = some next) : Moves journalId op l { l with epoch := next }

variable {sha256} {config : JournalConfig} {l : Ledger} {j : WitnessJournal}

theorem moves_of_advanced {op : Operation} {m : Journaled Unit} {α : Type} {n : Journaled α}
    (h : wp n (fun _ => Advanced sha256 config l.epoch op.events l)
      (fun _ => Advanced sha256 config l.epoch op.events l) j)
    (hm : m.after j = n.after j) :
    ∃ l', Refines sha256 config l' (m.after j) ∧ Moves sha256 config.journalId op l l' := by
  rw [hm]
  rcases after_of_wp h with h | ⟨e, he, l', hs, h⟩
  · exact ⟨l, h, .idle⟩
  · exact ⟨l', h, .commit he hs⟩

theorem after_discard {α : Type} (n : Journaled α) (j : WitnessJournal) :
    (do let _ ← n; pure () : Journaled Unit).after j = n.after j := by
  simp only [after, bind, ExceptT.bind, ExceptT.mk, StateT.bind, ExceptT.bindCont]
  cases h : n j with
  | mk r s => cases r <;> rfl

theorem apply_refines (op : Operation) (h : Refines sha256 config l j) :
    ∃ l', Refines sha256 config l' (op.apply sha256 j) ∧
      Moves sha256 config.journalId op l l' := by
  have hquiet : ∀ {m : Journaled Unit}, Quiet m → (op.call sha256).after j = m.after j →
      ∃ l', Refines sha256 config l' (op.apply sha256 j) ∧
        Moves sha256 config.journalId op l l' := by
    intro m hq hm
    refine ⟨l, ?_, .idle⟩
    show Refines sha256 config l ((op.call sha256).after j)
    rw [hm]
    exact after_of_wp (hq sha256 config l j h)
  cases op with
  | appendReceived id generation recipe record =>
    refine moves_of_advanced (n := Journal.appendReceived sha256 id generation recipe record) ?_ rfl
    simp only [Journal.appendReceived, wp_bind, wp_get, h.epoch]
    exact appendReceivedAt_advanced _ _ _ _ _ h
  | appendDecision id record =>
    refine moves_of_advanced (n := Journal.appendDecision sha256 id record) ?_ (after_discard _ j)
    simp only [Journal.appendDecision, wp_bind, wp_get, h.epoch]
    exact appendDecisionAt_advanced _ _ _ h
  | deny id decision denied =>
    refine moves_of_advanced (n := Journal.deny sha256 id decision denied) ?_ rfl
    simp only [Journal.deny, wp_bind, wp_get, h.epoch]
    exact denyAt_advanced _ _ _ _ h
  | complete intent record =>
    refine moves_of_advanced (n := Journal.complete sha256 intent record) ?_ rfl
    simp only [Journal.complete, wp_bind, wp_get, h.epoch]
    exact completeAt_advanced _ _ _ h
  | recordOutcomeUnknown id record =>
    refine moves_of_advanced (n := Journal.recordOutcomeUnknown sha256 id record) ?_ rfl
    simp only [Journal.recordOutcomeUnknown, wp_bind, wp_get, h.epoch]
    exact recordOutcomeUnknownAt_advanced _ _ _ h
  | completeRecovery id record =>
    refine moves_of_advanced (n := Journal.completeRecovery sha256 id record) ?_ rfl
    simp only [Journal.completeRecovery, wp_bind, wp_get, h.epoch]
    exact completeRecoveryAt_advanced _ _ _ h
  | appendCheckpointPublication artifactDigest record =>
    exact moves_of_advanced (n := Journal.appendCheckpointPublication sha256 artifactDigest record)
      (appendCheckpointPublication_advanced _ _ h) rfl
  | maintain => exact hquiet (sealActiveSegment_quiet true) rfl
  | advanceEpoch expected =>
    have hw := wp_advanceEpoch expected h
    rw [wp_iff] at hw
    have hafter : (Operation.advanceEpoch expected).apply sha256 j
        = (Journal.advanceEpoch expected).after j := after_discard _ j
    rw [hafter]
    cases hr : (Journal.advanceEpoch expected).result j with
    | error e => exact ⟨l, hw.2 e hr, .idle⟩
    | ok next =>
      obtain ⟨hnext, hrefines⟩ := hw.1 next hr
      exact ⟨_, hrefines, .advance rfl hnext⟩
  | failOnce point =>
    refine hquiet (m := modify fun j => { j with faults := insert point j.faults }) ?_ rfl
    exact fun sha256 config l => preserves_modify fun _ h => h.of_handle _ _ _ _ _

end Operation

def runJournal (sha256 : Hasher) (ops : List Operation) (j : WitnessJournal) :
    WitnessJournal :=
  ops.foldl (fun j op => op.apply sha256 j) j

def Ledger.Follows (sha256 : Hasher) (journalId : Id) :
    List Operation → Ledger → Ledger → Prop
  | [], l, l' => l' = l
  | op :: ops, l, l' => ∃ m, op.Moves sha256 journalId l m ∧ Follows sha256 journalId ops m l'

variable {sha256 : Hasher} {config : JournalConfig} {j : WitnessJournal} {l : Ledger}

theorem runJournal_refines (ops : List Operation)
    (h : Refines sha256 config l j) :
    ∃ l', Refines sha256 config l' (runJournal sha256 ops j) ∧
      Ledger.Follows sha256 config.journalId ops l l' := by
  induction ops generalizing l j with
  | nil => exact ⟨l, h, rfl⟩
  | cons op ops ih =>
    obtain ⟨m, hm, hmoves⟩ := op.apply_refines h
    obtain ⟨l', hl', hfollows⟩ := ih hm
    exact ⟨l', hl', m, hmoves, hfollows⟩

theorem create_refines (sha256 : Hasher) (config : JournalConfig)
    (faults : Finset FaultPoint) :
    Refines sha256 config .empty (WitnessJournal.create config faults) where
  sameConfig := rfl
  represents :=
    { wellFormed := Ledger.wellFormed_empty sha256 config.journalId
      scan := by
        refine ⟨[], [], rfl, ⟨by simp, rfl, rfl, rfl, ?_, rfl⟩⟩
        intro k v hk
        have hk' : ((Tree.empty : Tree UInt64 (UInt64 × Digest)).put 0 (1, .zero 32)).get k
            = some v := hk
        rw [Tree.get_put] at hk'
        split at hk'
        · rename_i h0
          have h0' : (0 : UInt64).toNat = k.toNat := h0
          simp [← h0']
        · cases hk'
      headSequence := rfl
      headHash := rfl
      epoch := rfl
      events := by
        intro e k
        simp [WitnessJournal.create, Ledger.empty]
      operations := fun _ => rfl
      pending := fun _ => rfl }
  epoch := rfl
  room := Nat.zero_le _
  enabled := by simp [Ledger.empty]

structure RecordChain (sha256 : Hasher) (j : WitnessJournal) (rs : List DecodedRecord) :
    Prop where
  sequence : ∀ i r, rs[i]? = some r → r.record.sequence.toNat = i + 1
  first : ∀ r, rs[0]? = some r → r.record.previousHash = .zero 32
  link : ∀ i r r', rs[i]? = some r → rs[i + 1]? = some r' →
    r'.record.previousHash = hashRecord sha256 r.bytes
  headSequence : j.head.1.toNat = rs.length
  headHash : j.head.2 = (rs.getLast?.map fun r => hashRecord sha256 r.bytes).getD (.zero 32)
  events_distinct : (rs.map fun r => r.record.eventId).Nodup
  events_index : ∀ e k, j.store.events.get e = some k ↔
    ∃ i r, rs[i]? = some r ∧ r.record.eventId = e ∧ k.toNat = i + 1

theorem Ledger.WellFormed.tip_take {journalId : Id}
    (h : l.WellFormed sha256 journalId) {i : Nat} {r r' : WitnessRecord}
    (hr : l.entries[i]? = some r) (hr' : l.entries[i + 1]? = some r') :
    r'.previousHash = recordHash sha256 journalId r := by
  obtain ⟨hi, rfl⟩ := List.getElem?_eq_some_iff.mp hr
  rw [h.linked.link_eq _ _ hr', List.take_succ_eq_append_getElem hi,
    HashChain.tip_append_singleton]

theorem Refines.recordChain (h : Refines sha256 config l j) :
    RecordChain sha256 j (l.entries.map (decodedEntry config.journalId)) where
  sequence := by
    intro i r hr
    rw [List.getElem?_map] at hr
    obtain ⟨x, hx, rfl⟩ := Option.map_eq_some_iff.mp hr
    exact h.represents.wellFormed.numbered i x hx
  first := by
    intro r hr
    rw [List.getElem?_map] at hr
    obtain ⟨x, hx, rfl⟩ := Option.map_eq_some_iff.mp hr
    exact h.represents.wellFormed.linked.link_eq _ _ hx
  link := by
    intro i r r' hr hr'
    rw [List.getElem?_map] at hr hr'
    obtain ⟨x, hx, rfl⟩ := Option.map_eq_some_iff.mp hr
    obtain ⟨x', hx', rfl⟩ := Option.map_eq_some_iff.mp hr'
    exact h.represents.wellFormed.tip_take hx hx'
  headSequence := by
    rw [List.length_map]
    exact h.represents.headSequence
  headHash := by
    rw [h.head_eq]
    rcases List.eq_nil_or_concat l.entries with he | ⟨rs, r, he⟩
    · simp [Ledger.tip, he, HashChain.tip]
    · simp [Ledger.tip, he, List.concat_eq_append, recordHash, decodedEntry]
  events_distinct := by
    rw [List.map_map]
    exact h.represents.wellFormed.distinct
  events_index := by
    intro e k
    rw [h.represents.events]
    constructor
    · rintro ⟨r, hr, he, rfl⟩
      obtain ⟨i, hi⟩ := List.getElem?_of_mem hr
      exact ⟨i, decodedEntry config.journalId r, by simp [hi], he,
        h.represents.wellFormed.numbered i r hi⟩
    · rintro ⟨i, r, hr, he, hk⟩
      rw [List.getElem?_map] at hr
      obtain ⟨x, hx, rfl⟩ := Option.map_eq_some_iff.mp hr
      refine ⟨x, List.mem_of_getElem? hx, he, UInt64.toNat_inj.mp ?_⟩
      rw [hk, h.represents.wellFormed.numbered i x hx]

theorem Refines.records_eq (h : Refines sha256 config l j) :
    Journal.records j = .ok (l.entries.map (recordLayout config.journalId)) := by
  obtain ⟨blocks, active, he, hs⟩ := h.represents.scan
  rw [hs.records_eq, he]

theorem Refines.entries_unique {l l' : Ledger}
    (h : Refines sha256 config l j) (h' : Refines sha256 config l' j) : l.entries = l'.entries := by
  have hstored := Except.ok.inj (h.records_eq.symm.trans h'.records_eq)
  have hdecoded := mapM_decodeRecord config.journalId h.represents.wellFormed.valid
  rw [hstored, mapM_decodeRecord config.journalId h'.represents.wellFormed.valid] at hdecoded
  have hmap := congrArg (List.map DecodedRecord.record) (Except.ok.inj hdecoded)
  rw [map_record_decodedEntry, map_record_decodedEntry] at hmap
  exact hmap.symm

theorem Operation.Moves.entries_prefix {sha256 : Hasher} {journalId : Id} {op : Operation}
    {l l' : Ledger} (h : op.Moves sha256 journalId l l') : l.entries <+: l'.entries := by
  cases h with
  | idle => exact List.prefix_rfl
  | commit mem step =>
    obtain ⟨new, hnew, -⟩ := step.entries_append
    exact ⟨new, hnew.symm⟩
  | advance call next_eq => exact List.prefix_rfl

/-- After every run, whatever its calls and faults were, the stored records are one chain:
numbered from one, linked from the zero hash, ending in the stored head, indexed by event. -/
theorem run_records_chain (sha256 : Hasher) (config : JournalConfig)
    (faults : Finset FaultPoint) (ops : List Operation) :
    ∃ stored rs,
      Journal.records (runJournal sha256 ops (WitnessJournal.create config faults)) = .ok stored ∧
      stored.mapM decodeRecord = .ok rs ∧
      RecordChain sha256 (runJournal sha256 ops (WitnessJournal.create config faults)) rs := by
  obtain ⟨l, h, -⟩ := runJournal_refines ops (create_refines sha256 config faults)
  exact ⟨_, _, h.records_eq, mapM_decodeRecord _ h.represents.wellFormed.valid, h.recordChain⟩

end Ferrocrate.Witness

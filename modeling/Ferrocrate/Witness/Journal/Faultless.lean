import Ferrocrate.Witness.Journal.Simulation

/-! Operations of a journal when no fault is set and the database has room: the parts around
a transaction return, and leave the controls of the journal as they are. -/
namespace Ferrocrate.Witness
open Lib Lib.Program Journal

structure Controls where
  reserve : UInt64
  reserveInflight : Option (OperationId × UInt64)
  storedStop : Bool
  automationStopped : Bool

def WitnessJournal.controls (j : WitnessJournal) : Controls :=
  ⟨j.store.metadata.reserve, j.store.metadata.reserveInflight, j.store.metadata.automationStopped,
    j.automationStopped⟩

def recordBound : Nat := 419

structure Controls.Recovering (c : Controls) : Prop where
  automation : c.automationStopped = false
  stored : c.storedStop = false
  idle : c.reserveInflight = none
  reserve : recordBound ≤ c.reserve.toNat

def footprint (journalId : Id) (rs : List WitnessRecord) : Nat :=
  (rs.map fun r => (recordLayout journalId r).length + 12).sum

theorem footprint_append (journalId : Id) (rs rs' : List WitnessRecord) :
    footprint journalId (rs ++ rs') = footprint journalId rs + footprint journalId rs' := by
  simp [footprint]

theorem length_segmentBlob (es : List (UInt64 × Bytes)) :
    (segmentBlob es).length = (es.map fun e => e.2.length + 12).sum := by
  induction es with
  | nil => rfl
  | cons e es ih =>
    simp only [segmentBlob, List.flatMap_cons, List.length_append, length_u64Be, length_u32Be,
      List.map_cons, List.sum_cons] at ih ⊢
    omega

variable {blocks : List (List WitnessRecord)} {active : List WitnessRecord} {journalId : Id}
  {s : Store}

theorem Scan.bytes_le (h : Scan journalId s blocks active) :
    s.bytes ≤ footprint journalId (blocks.flatten ++ active) := by
  have hsealed : (s.sealedSegments.entries.map (·.2.length)).sum
      = footprint journalId blocks.flatten := by
    have hb : s.sealedSegments.entries.map (·.2.length)
        = blocks.map fun b => footprint journalId b := by
      have hmap := congrArg (List.map List.length) h.blobs
      simpa [Function.comp_def, length_segmentBlob, keyed, footprint] using hmap
    rw [hb]
    clear hb h
    induction blocks with
    | nil => rfl
    | cons b bs ih => rw [List.map_cons, List.sum_cons, ih, List.flatten_cons, footprint_append]
  have hactive : (s.records.entries.map (·.2.length)).sum ≤ footprint journalId active := by
    rw [h.records]
    clear h hsealed
    induction active with
    | nil => simp [keyed]
    | cons r rs ih =>
      simp only [keyed, footprint, List.map_cons, List.sum_cons] at ih ⊢
      omega
  rw [footprint_append, Store.bytes, hsealed]
  omega

theorem Represents.bytes_le {sha256 : Hasher} {l : Ledger}
    (h : Represents sha256 journalId s l) : s.bytes ≤ footprint journalId l.entries := by
  obtain ⟨blocks, active, hent, hscan⟩ := h.scan
  rw [hent]
  exact hscan.bytes_le

theorem Scan.blocks_le (h : Scan journalId s blocks active) :
    blocks.length ≤ (blocks.flatten ++ active).length := by
  have hne := h.nonempty
  clear h
  rw [List.length_append]
  induction blocks with
  | nil => simp
  | cons b bs ih =>
    have hb := List.length_pos_iff.mpr (hne b List.mem_cons_self)
    have hbs := ih fun x hx => hne x (List.mem_cons_of_mem _ hx)
    simp only [List.length_cons, List.flatten_cons, List.length_append] at hbs ⊢
    omega

theorem Scan.unsealed (h : Scan journalId s blocks active) {next : UInt64}
    (hnext : next.toNat = s.metadata.currentSegment.toNat + 1) :
    s.segments.contains next = false ∧
      s.sealedSegments.contains s.metadata.currentSegment = false := by
  constructor
  · cases hg : s.segments.get next with
    | none => simp [Tree.contains, hg]
    | some v =>
      have hle := h.segments next v hg
      rw [hnext, h.current] at hle
      omega
  · cases hg : s.sealedSegments.get s.metadata.currentSegment with
    | none => simp [Tree.contains, hg]
    | some v =>
      have hmem := (Tree.get_eq_some_iff _).mp hg
      have hk : s.metadata.currentSegment.toNat ∈ List.range blocks.length := by
        rw [← h.keys]
        exact List.mem_map.mpr ⟨_, hmem, rfl⟩
      have hlt := List.mem_range.mp hk
      rw [h.current] at hlt
      omega

structure Calm (sha256 : Hasher) (config : JournalConfig) (l : Ledger) (c : Controls)
    (j : WitnessJournal) : Prop where
  refines : Refines sha256 config l j
  faults : j.faults = ∅
  controls : j.controls = c

namespace Journal
variable {sha256 : Hasher} {config : JournalConfig} {l : Ledger} {c : Controls}
  {j : WitnessJournal}

section NoFaults
variable (hf : j.faults = ∅)
include hf

theorem takeFault_eq (point : FaultPoint) : takeFault point j = (.ok false, j) := by
  simp only [takeFault, hf, Finset.notMem_empty, decide_false, Finset.erase_empty]
  rw [← hf]

theorem wp_takeFault_calm (point : FaultPoint) (Q : Bool → WitnessJournal → Prop)
    (E : JournalError → WitnessJournal → Prop) : wp (takeFault point) Q E j ↔ Q false j := by
  rw [wp, takeFault_eq hf]

theorem wp_failAt_calm (point : FaultPoint) (e : JournalError) (Q : Unit → WitnessJournal → Prop)
    (E : JournalError → WitnessJournal → Prop) : wp (failAt point e) Q E j ↔ Q () j := by
  rw [failAt, wp_bind, wp_takeFault_calm hf, wp_rejectIf]
  simp

theorem wp_stopAt_calm (point : FaultPoint) (Q : Unit → WitnessJournal → Prop)
    (E : JournalError → WitnessJournal → Prop) : wp (stopAt point) Q E j ↔ Q () j := by
  rw [stopAt, wp_bind, wp_takeFault_calm hf, wp_runIf]
  simp

theorem wp_preflight_calm (boundary : FlushBoundary) (hm : j.config.mode = .required)
    (Q : Unit → WitnessJournal → Prop) (E : JournalError → WitnessJournal → Prop) :
    wp (preflight boundary) Q E j ↔ Q () j := by
  simp [preflight, wp_bind, wp_get, wp_rejectIf, wp_failAt_calm hf, hm]

theorem wp_flush_calm (boundary : FlushBoundary) (id : OperationId)
    (Q : Unit → WitnessJournal → Prop) (E : JournalError → WitnessJournal → Prop) :
    wp (flush boundary id) Q E j ↔ Q () j := by
  simp only [flush, wp_bind, wp_failAt_calm hf]

end NoFaults

theorem sealActiveSegment_calm (force : Bool) (h : Calm sha256 config l c j)
    (hroom : footprint config.journalId l.entries ≤ config.databaseLimit) :
    wp (sealActiveSegment force) (fun _ => Calm sha256 config l c) (fun _ _ => False) j := by
  simp only [sealActiveSegment, wp_bind, wp_failAt_calm h.faults, wp_get, wp_ite, wp_pure, wp_okOr,
    wp_transaction]
  refine ⟨fun _ => h, fun hne => ?_⟩
  have hentries : j.store.records.entries ≠ [] := fun he => hne (.inl he)
  obtain ⟨blocks, active, hent, hscan⟩ := h.refines.represents.scan
  have hcurrent : j.store.metadata.currentSegment.toNat ≤ 2 ^ 48 := by
    rw [hscan.current]
    refine hscan.blocks_le.trans ?_
    rw [← hent]
    exact h.refines.length_le
  refine ⟨fun next hnext => ?_, fun hnone => ?_⟩
  · have hnext' := toNat_checkedAdd hnext
    obtain ⟨hseg, hsealed⟩ := hscan.unsealed hnext'
    have hrep := @Represents.sealed _ _ _ _ h.refines.represents next (j.head.1 + 1, j.head.2)
      hentries hnext'
    have hbytes := hrep.bytes_le.trans hroom
    simp only [hseg, hsealed, Bool.false_eq_true, if_false]
    refine ⟨fun s hs => ?_, fun _ he => nomatch he⟩
    obtain rfl := Except.ok.inj hs
    refine ⟨fun _ => ⟨⟨h.refines.sameConfig, hrep, h.refines.epoch, hbytes, h.refines.enabled⟩,
      h.faults, h.controls⟩, fun hfull => ?_⟩
    rw [h.refines.sameConfig] at hfull
    exact absurd hbytes (Nat.not_le.mpr hfull)
  · obtain ⟨y, hy⟩ : ∃ y, checkedAdd j.store.metadata.currentSegment 1 = some y := by
      unfold checkedAdd
      rw [if_pos (by omega)]
      exact ⟨_, rfl⟩
    cases hnone.symm.trans hy

theorem postAckRotation_calm (h : Calm sha256 config l c j)
    (hroom : footprint config.journalId l.entries ≤ config.databaseLimit) :
    wp postAckRotation (fun _ => Calm sha256 config l c) (fun _ _ => False) j := by
  simp only [postAckRotation, wp_bind, wp_attempt]
  refine wp_mono (sealActiveSegment_calm false h hroom) (fun _ j h => ?_) (fun _ _ hf => hf.elim)
  exact ⟨h.refines.of_metadata rfl rfl rfl rfl, h.faults, h.controls⟩

def hasCapacity (n : Nat) (j : WitnessJournal) : Bool :=
  n ≤ j.config.segmentBytes.toNat &&
    match checkedSub j.config.maxJournalBytes j.config.cleanupReserveBytes with
    | none => false
    | some userLimit => saturatingAdd (saturatingAdd (usedBytes j.store.records)
        (usedBytes j.store.sealedSegments)) n ≤ userLimit.toNat

theorem ensureUserCapacity_calm {n : Nat} (h : Calm sha256 config l c j)
    (hroom : footprint config.journalId l.entries ≤ config.databaseLimit)
    (hq : hasCapacity n j = true) :
    wp (ensureUserCapacity n) (fun _ => Calm sha256 config l c) (fun _ _ => False) j := by
  simp only [hasCapacity, Bool.and_eq_true, decide_eq_true_eq] at hq
  obtain ⟨hsegment, hlimit⟩ := hq
  simp only [ensureUserCapacity, wp_bind, wp_get, wp_rejectIf, wp_okOr, wp_runIf, wp_failingWith]
  refine ⟨fun hover => by omega, fun _ => ⟨fun userLimit hu => ?_, fun hnone => ?_⟩⟩
  · rw [hu] at hlimit
    simp only [decide_eq_true_eq] at hlimit
    exact ⟨fun hover => by omega, fun _ =>
      ⟨fun _ => sealActiveSegment_calm true h hroom, fun _ => h⟩⟩
  · rw [hnone] at hlimit
    cases hlimit

theorem hasCapacity_mono {m n : Nat} (hmn : m ≤ n) (h : hasCapacity n j = true) :
    hasCapacity m j = true := by
  cases hu : checkedSub j.config.maxJournalBytes j.config.cleanupReserveBytes with
  | none => simp [hasCapacity, hu] at h
  | some userLimit =>
    simp only [hasCapacity, hu, Bool.and_eq_true, decide_eq_true_eq] at h ⊢
    simp only [saturatingAdd] at h ⊢
    omega

theorem Refines.bytes_append (h : Refines sha256 config l j) {epoch : UInt64} {r : WitnessRecord}
    {s : Store}
    (hr : s.records = j.store.records.put (l.stamp sha256 config.journalId epoch r).sequence
      (recordLayout config.journalId (l.stamp sha256 config.journalId epoch r)))
    (hs : s.sealedSegments = j.store.sealedSegments)
    (hroom : footprint config.journalId l.entries + recordBound ≤ config.databaseLimit) :
    s.bytes ≤ j.config.databaseLimit := by
  have hold := h.represents.bytes_le
  have hlen := length_recordLayout_le config.journalId (l.stamp sha256 config.journalId epoch r)
  have hput := h.entries_put (recordLayout config.journalId
    (l.stamp sha256 config.journalId epoch r)) (by rw [h.stamp_toNat epoch r]; omega)
  rw [h.sameConfig]
  simp only [Store.bytes, hr, hs, hput, List.map_append, List.sum_append, List.map_cons,
    List.map_nil, List.sum_cons, List.sum_nil, recordBound] at hold hroom ⊢
  omega

theorem footprint_extend (journalId : Id) (l : Ledger) (r : WitnessRecord) :
    footprint journalId (l.extend r).entries ≤ footprint journalId l.entries + (recordBound + 12) := by
  have hlen := length_recordLayout_le journalId r
  rw [Ledger.entries_extend, footprint_append]
  simp only [footprint, List.map_cons, List.map_nil, List.sum_cons, List.sum_nil, recordBound]
  omega

variable {id : OperationId} {state : OperationState}

theorem recordOutcomeUnknownAt_calm (epoch : UInt64) (record : WitnessRecord) (h : Calm sha256 config l c j) (hstage : record.stage = .outcome)
    (hunknown : record.outcome = .outcomeUnknown) (ho : l.operations id = some state)
    (hbefore : state.state = stateAllowed)
    (hterminal : state.terminalMatches sha256 (l.stamp sha256 config.journalId epoch record) = true)
    (hvalid : validRecord record = true) (hfresh : l.Fresh record.eventId)
    (hq : hasCapacity recordBound j = true)
    (hroom : footprint config.journalId l.entries + (recordBound + 12) ≤ config.databaseLimit) :
    wp (recordOutcomeUnknownAt sha256 epoch id record)
      (fun _ => Calm sha256 config
        { l.extend (l.stamp sha256 config.journalId epoch record) with
          operations := Function.update l.operations id (some { state with
            state := stateUnknown
            unknownEventId := record.eventId
            pendingGeneration := state.pendingGeneration + 1 }) } c)
      (fun _ _ => False) j := by
  have hr := h.refines
  have hget : j.store.operations.get id = some state.encode := by
    rw [hr.represents.operations, ho]
    rfl
  have hmode : j.config.mode = .required := by
    rw [hr.sameConfig]
    exact hr.required ho
  simp only [recordOutcomeUnknownAt, wp_bind, wp_rejectIf, wp_preflight_calm h.faults _ hmode, wp_get,
    wp_okOr, wp_ofExcept, wp_transaction, wp_ite, hget, Option.some.injEq]
  refine ⟨fun hbad => by simp [hstage, hunknown] at hbad, fun _ => ⟨?_, fun hbad => by cases hbad⟩⟩
  rintro _ rfl
  refine ⟨?_, fun hbad => by simp at hbad⟩
  intro state' hstate'
  rw [OperationState.decode_encode] at hstate'
  obtain rfl := Option.some.inj hstate'
  refine ⟨fun hbad => absurd (hbefore.symm.trans hbad) (by decide), fun _ => ⟨?_, ?_⟩⟩
  · rintro (hbad | hbad)
    · exact hbad hbefore
    · cases hterminal.symm.trans hbad
  intro _
  simp only [hr.stamp_eq epoch record]
  simp only [hr.next_eq epoch record, hr.sameConfig]
  have hstamped : validRecord (l.stamp sha256 config.journalId epoch record) = true := hvalid
  refine ⟨?_, fun e he => by simp [encodeRecord_eq hstamped] at he⟩
  intro bytes hbytes
  obtain ⟨-, -, rfl⟩ := (encodeRecord_ok_iff _ _ _).mp hbytes
  have hlen := length_recordLayout_le config.journalId (l.stamp sha256 config.journalId epoch record)
  refine wp_mono (ensureUserCapacity_calm h (by omega) (hasCapacity_mono hlen hq)) ?_
    (fun _ _ hf => hf)
  intro _ j' h'
  have hr' := h'.refines
  have hhead : j'.store.metadata.headSequence = j.head.1 := by
    have hh := hr'.head_eq.trans hr.head_eq.symm
    exact congrArg Prod.fst hh
  have hnew : j'.store.events.contains record.eventId = false := by
    rw [Bool.eq_false_iff]
    exact fun hc => (hr'.represents.contains_event _).mp hc hfresh
  refine ⟨?_, fun e he => by simp [hhead, hnew] at he⟩
  intro s hs
  simp only [hhead, hnew, ne_eq, not_true, if_false, Bool.false_eq_true, Except.ok.injEq] at hs
  have hb : s.bytes ≤ j'.config.databaseLimit :=
    Refines.bytes_append hr' (by rw [← hs]) (by rw [← hs]) (by omega)
  refine ⟨fun _ => ?_, fun hfull => absurd hb (Nat.not_le.mpr hfull)⟩
  have hcommit := hr'.commit hs hb hfresh hstamped rfl rfl rfl rfl (hr'.put_operation id _)
    hr'.represents.pending (fun _ _ => hr'.required ho)
  have hcontrols : WitnessJournal.controls { j' with store := s } = c := by
    rw [← hs]
    exact h'.controls
  rw [wp_flush_calm (by exact h'.faults)]
  exact postAckRotation_calm ⟨hcommit, h'.faults, hcontrols⟩
    ((footprint_extend _ _ _).trans hroom)

theorem beginCleanupReservation_calm {n : Nat} (h : Calm sha256 config l c j)
    (hstopped : c.automationStopped = false) (hstored : c.storedStop = false)
    (hidle : c.reserveInflight = none) {remaining : UInt64}
    (hreserve : checkedSub c.reserve (UInt64.ofNat n) = some remaining) :
    wp (beginCleanupReservation id n)
      (fun next j' => next = remaining ∧
        Calm sha256 config l { c with reserveInflight := some (id, UInt64.ofNat n) } j')
      (fun _ _ => False) j := by
  have hc := h.controls
  subst hc
  simp only [WitnessJournal.controls] at hstopped hstored hidle hreserve
  simp only [beginCleanupReservation, wp_bind, wp_stopAt_calm h.faults, wp_get, wp_rejectIf,
    hstopped, hstored, hidle, hreserve]
  refine ⟨fun hbad => by simp at hbad, fun _ => ?_⟩
  have hcalm : Calm sha256 config l
      { j.controls with reserveInflight := some (id, UInt64.ofNat n) }
      { j with store := { j.store with metadata := { j.store.metadata with
        reserveInflight := some (id, UInt64.ofNat n) } } } :=
    ⟨h.refines.of_metadata rfl rfl rfl rfl, h.faults, rfl⟩
  simp only [modifyMeta, wp_modify, wp_stopAt_calm hcalm.faults, wp_pure]
  exact ⟨trivial, hcalm⟩


theorem finishCleanupReservation_calm (h : Calm sha256 config l c j) (remaining : UInt64) :
    wp (finishCleanupReservation remaining)
      (fun _ => Calm sha256 config l { c with reserveInflight := none }) (fun _ _ => False) j := by
  have hm : Refines sha256 config l { j with store := { j.store with metadata :=
      { j.store.metadata with reserveInflight := none } } } :=
    h.refines.of_metadata rfl rfl rfl rfl
  simp only [finishCleanupReservation, modifyMeta, wp_bind, wp_modify]
  exact ⟨hm.of_handle _ _ _ _ _, h.faults, by rw [← h.controls]; rfl⟩

theorem checkedSub_eq_some {x : UInt64} {n : Nat} (h : n ≤ x.toNat) :
    ∃ y, checkedSub x (UInt64.ofNat n) = some y := by
  have hx := x.toNat_lt
  have hn : (UInt64.ofNat n).toNat = n := by
    rw [UInt64.toNat_ofNat']
    exact Nat.mod_eq_of_lt (by omega)
  unfold checkedSub
  rw [if_pos (UInt64.le_iff_toNat_le.mpr (by rw [hn]; exact h))]
  exact ⟨_, rfl⟩

theorem completeRecoveryAt_calm (epoch : UInt64) (record : WitnessRecord) (h : Calm sha256 config l c j) (hc : c.Recovering)
    (hstage : record.stage = .recovery) (ho : l.operations id = some state)
    (hbefore : state.state = stateUnknown)
    (hterminal : state.terminalMatches sha256 (l.stamp sha256 config.journalId epoch record) = true)
    (hlink : record.recoveryLink = some state.unknownEventId) (hvalid : validRecord record = true)
    (hfresh : l.Fresh record.eventId)
    (hroom : footprint config.journalId l.entries + (recordBound + 12) ≤ config.databaseLimit) :
    wp (completeRecoveryAt sha256 epoch id record)
      (fun _ => Refines sha256 config
        { l.extend (l.stamp sha256 config.journalId epoch record) with
          operations := Function.update l.operations id (some { state with
            state := stateComplete
            pendingGeneration := state.pendingGeneration + 1 })
          pending := Function.update l.pending id none })
      (fun _ _ => False) j := by
  have hr := h.refines
  have hget : j.store.operations.get id = some state.encode := by
    rw [hr.represents.operations, ho]
    rfl
  have hrunning : j.automationStopped = false := by
    rw [← hc.automation, ← h.controls]
    rfl
  have hnew : ∀ {j'}, Refines sha256 config l j' →
      j'.store.events.contains record.eventId = false := by
    intro j' hr'
    rw [Bool.eq_false_iff]
    exact fun hc => (hr'.represents.contains_event _).mp hc hfresh
  have hstamped : validRecord (l.stamp sha256 config.journalId epoch record) = true := hvalid
  simp only [completeRecoveryAt, wp_bind, wp_rejectIf, wp_get, wp_okOr, wp_ofExcept, wp_transaction,
    wp_attempt, hget, Option.some.injEq, hrunning]
  refine ⟨fun hbad => by simp at hbad, fun _ => ⟨fun hbad => hbad hstage, fun _ =>
    ⟨?_, fun hbad => by cases hbad⟩⟩⟩
  rintro _ rfl
  refine ⟨?_, fun hbad => by simp at hbad⟩
  intro state' hstate'
  rw [OperationState.decode_encode] at hstate'
  obtain rfl := Option.some.inj hstate'
  refine ⟨?_, fun _ => ?_⟩
  · rintro (hbad | hbad | hbad)
    · exact hbad hbefore
    · cases hterminal.symm.trans hbad
    · exact hbad hlink
  simp only [hr.stamp_eq epoch record]
  simp only [hr.next_eq epoch record, hr.sameConfig]
  refine ⟨?_, fun e he => by simp [encodeRecord_eq hstamped] at he⟩
  intro bytes hbytes
  obtain ⟨-, -, rfl⟩ := (encodeRecord_ok_iff _ _ _).mp hbytes
  refine ⟨fun hbad => ?_, fun _ => ?_⟩
  · cases (hnew hr).symm.trans hbad
  have hlen := length_recordLayout_le config.journalId (l.stamp sha256 config.journalId epoch record)
  obtain ⟨remaining, hremaining⟩ := checkedSub_eq_some (hlen.trans hc.reserve)
  refine wp_mono (beginCleanupReservation_calm h hc.automation hc.stored hc.idle hremaining) ?_
    (fun _ _ hf => hf)
  rintro next j' ⟨rfl, h'⟩
  have hr' := h'.refines
  have hhead : j'.store.metadata.headSequence = j.head.1 :=
    congrArg Prod.fst (hr'.head_eq.trans hr.head_eq.symm)
  rw [wp_stopAt_calm h'.faults, wp_stopAt_calm h'.faults]
  refine ⟨?_, fun e he => by simp [hhead, hnew hr'] at he⟩
  intro s hs
  simp only [hhead, hnew hr', ne_eq, not_true, if_false, Bool.false_eq_true,
    Except.ok.injEq] at hs
  have hb : s.bytes ≤ j'.config.databaseLimit :=
    Refines.bytes_append hr' (by rw [← hs]) (by rw [← hs]) (by omega)
  refine ⟨fun _ => ?_, fun hfull => absurd hb (Nat.not_le.mpr hfull)⟩
  have hcommit := hr'.commit hs hb hfresh hstamped rfl rfl rfl rfl (hr'.put_operation id _)
    (hr'.remove_pending id) (fun _ _ => hr'.required ho)
  rw [wp_flush_calm (by exact h'.faults)]
  refine wp_mono (finishCleanupReservation_calm ⟨hcommit, h'.faults, rfl⟩ next) (fun _ j h => ?_)
    (fun _ _ h => h)
  exact wp_mono (postAckRotation_calm h ((footprint_extend _ _ _).trans hroom))
    (fun _ _ h => h.refines) (fun _ _ h => h)

end Journal
end Ferrocrate.Witness

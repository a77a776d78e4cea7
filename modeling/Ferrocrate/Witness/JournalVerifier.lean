import Ferrocrate.Lib.Sha256
import Ferrocrate.Witness.Agreement
import Ferrocrate.Witness.Journal.Run

/-! What a journal writes, the verifier accepts: over whole runs, with the open operations of
the journal as the open requests of the verifier. -/
namespace Ferrocrate.Witness
open Lib Journal

section Step
variable {sha256 : Hasher} {journalId : Id} {epoch : UInt64} {e : LedgerEvent}
  {l l' : Ledger}

def terminalCount (kind : Terminal) (rs : List ParsedRecord) : Nat :=
  rs.countP fun r => terminalOf r = some kind

theorem Ledger.Step.terminalCount_eq (hs : Step sha256 journalId epoch e l l') (kind : Terminal) :
    terminalCount kind l'.entries = terminalCount kind l.entries
      + if e.closing.map Prod.fst = some kind then 1 else 0 := by
  cases hs <;> simp [terminalCount, terminalOf, LedgerEvent.closing, List.countP_append,
    List.countP_singleton, *]

theorem Ledger.Step.closing_some (hs : Step sha256 journalId epoch e l l') {kind : Terminal}
    {id : OperationId} (he : e.closing = some (kind, id)) :
    l'.pending id = none ∧ ∃ st, l.operations id = some st ∧ st.state ≠ stateComplete := by
  cases hs with
  | denied _ _ _ operation before _ _ _ _ _ _ _ _ =>
    cases he
    exact ⟨by simp, _, operation, by rw [before]; decide⟩
  | outcome _ _ operation before _ _ _ _ =>
    cases he
    exact ⟨by simp, _, operation, by rw [before]; decide⟩
  | recovered _ operation before _ _ _ _ =>
    cases he
    exact ⟨by simp, _, operation, by rw [before]; decide⟩
  | _ => cases he

theorem Ledger.Step.closing_none (hs : Step sha256 journalId epoch e l l') (he : e.closing = none)
    {id : OperationId} (hp : (l.pending id).isSome = true) : (l'.pending id).isSome = true := by
  cases hs with
  | @received _ k _ _ _ _ _ _ _ _ _ _ _ =>
    by_cases hk : id = k
    · subst hk
      simp
    · simpa [Function.update_of_ne hk] using hp
  | decided => exact hp
  | unknown => exact hp
  | published => exact hp
  | _ => cases he

theorem openRequests_append_subset {rs : List ParsedRecord} {r : ParsedRecord}
    (hs : r.stage ≠ .requestReceived) : openRequests (rs ++ [r]) ⊆ openRequests rs := by
  intro id
  simp only [openRequests, List.filter_append, List.map_append, List.toFinset_append,
    Finset.mem_sdiff, Finset.mem_union]
  rintro ⟨hin | hin, hnot⟩
  · exact ⟨hin, fun h => hnot (.inl h)⟩
  · simp [hs] at hin

theorem Ledger.Step.opened_le (hs : Step sha256 journalId epoch e l l') {n : Nat}
    (h : ∀ seen, seen <+: l.entries → (openRequests seen).card ≤ n)
    (h' : (openRequests l'.entries).card ≤ n) :
    ∀ seen, seen <+: l'.entries → (openRequests seen).card ≤ n := by
  intro seen hseen
  cases hs with
  | denied stage _ _ _ _ _ _ _ _ _ _ _ _ =>
    rcases List.prefix_concat_iff.mp hseen with rfl | hseen
    · exact h'
    · rcases List.prefix_concat_iff.mp hseen with rfl | hseen
      · refine (Finset.card_le_card (openRequests_append_subset ?_)).trans (h _ List.prefix_rfl)
        simp [stage]
      · exact h seen hseen
  | _ =>
    rcases List.prefix_concat_iff.mp hseen with rfl | hseen
    · exact h'
    · exact h seen hseen

end Step

namespace Operation

def closing : Operation → Option (Terminal × OperationId)
  | deny id _ _ => some (.denied, id)
  | complete intent _ => some (.outcome, intent.operationId)
  | completeRecovery id _ => some (.recovery, id)
  | _ => none

def closes (sha256 : Hasher) (kind : Terminal) (op : Operation) (j : WitnessJournal) :
    Bool :=
  match op.closing with
  | some (kind', id) => kind' = kind && (j.store.pending.get id).isSome
      && ((op.apply sha256 j).store.pending.get id).isNone
  | none => false

theorem closing_of_mem_events {op : Operation} {e : LedgerEvent} (h : e ∈ op.events) :
    e.closing = op.closing ∨ e.closing = none := by
  cases op <;> simp [events] at h
  case complete => rcases h with rfl | rfl <;> simp [LedgerEvent.closing, closing]
  all_goals subst h; simp [LedgerEvent.closing, closing]

end Operation

def closings (sha256 : Hasher) (kind : Terminal) : List Operation → WitnessJournal → Nat
  | [], _ => 0
  | op :: ops, j =>
    (if op.closes sha256 kind j then 1 else 0) + closings sha256 kind ops (op.apply sha256 j)

theorem closings_append (sha256 : Hasher) (kind : Terminal) (ops : List Operation)
    (op : Operation) (j : WitnessJournal) :
    closings sha256 kind (ops ++ [op]) j = closings sha256 kind ops j
      + if op.closes sha256 kind (runJournal sha256 ops j) then 1 else 0 := by
  induction ops generalizing j with
  | nil => exact Nat.add_comm _ _
  | cons x xs ih =>
    rw [List.cons_append, closings, ih, closings, Nat.add_assoc]
    rfl

section Move
variable {sha256 : Hasher} {config : JournalConfig} {l l' : Ledger} {j : WitnessJournal}
  {op : Operation}

theorem Refines.pending_isSome (h : Refines sha256 config l j) (id : OperationId) :
    (j.store.pending.get id).isSome = (l.pending id).isSome := by
  rw [h.represents.pending, Option.isSome_map]

theorem Operation.Moves.terminalCount_eq (hm : op.Moves sha256 config.journalId l l')
    (h : Refines sha256 config l j) (h' : Refines sha256 config l' (op.apply sha256 j))
    (ha : Agrees sha256 l) (kind : Terminal) :
    terminalCount kind l'.entries = terminalCount kind l.entries
      + if op.closes sha256 kind j then 1 else 0 := by
  have hkept : (∀ id, (l.pending id).isSome = true → (l'.pending id).isSome = true) →
      op.closes sha256 kind j = false := by
    intro hk
    unfold Operation.closes
    split
    · rename_i k id hc
      cases hp : (l.pending id).isSome with
      | false => simp [h.pending_isSome, hp]
      | true =>
        have hp' := hk id hp
        rw [← h'.pending_isSome] at hp'
        cases hget : (op.apply sha256 j).store.pending.get id with
        | none => simp [hget] at hp'
        | some v => simp
    · rfl
  cases hm with
  | idle => simp [hkept fun _ hp => hp]
  | advance call next_eq => simp [hkept fun _ hp => hp]
  | @commit e _ mem step =>
    rw [step.terminalCount_eq]
    cases he : e.closing with
    | none => simp [hkept fun _ hp => step.closing_none he hp]
    | some c =>
      obtain ⟨k, id⟩ := c
      obtain ⟨hnone, hopen⟩ := step.closing_some he
      have hop : op.closing = some (k, id) := by
        rcases Operation.closing_of_mem_events mem with hc | hc
        · rw [← hc, he]
        · cases hc.symm.trans he
      have hbefore : (j.store.pending.get id).isSome = true := by
        rw [h.pending_isSome]
        exact (ha.pending id).mpr hopen
      have hafter : (op.apply sha256 j).store.pending.get id = none := by
        rw [h'.represents.pending, hnone]
        rfl
      simp [Operation.closes, hop, hbefore, hafter]

end Move

def genesisTrust (config : JournalConfig) (maxRecords : UInt64) : StreamTrust :=
  (StreamTrust.new config.journalId 1 1 (.zero 32)).withMaxRecords maxRecords

section Stream
variable {sha256 : Hasher} {config : JournalConfig} {l : Ledger} {j : WitnessJournal}

theorem Agrees.lifecycles (h : Agrees sha256 l) (id : Id) :
    (phaseOf id l.entries).isSome = true := by
  cases ho : l.operations id with
  | none =>
    rw [h.idle id ho]
    rfl
  | some st =>
    obtain ⟨-, -, -, -, p, -, hp⟩ := h.concerns id st ho
    rw [hp]
    rfl

theorem InPhase.open_iff {received : WitnessRecord} {st : OperationState} {p : Phase}
    (h : InPhase received st p) : p.open?.isSome = true ↔ st.state ≠ stateComplete := by
  cases h with
  | received state => simp [Phase.open?, state]; decide
  | allowed state => simp [Phase.open?, state]; decide
  | unknown state => simp [Phase.open?, state]; decide
  | complete state => simp [Phase.open?, state]

theorem Refines.pending_size (h : Refines sha256 config l j) (ha : Agrees sha256 l) :
    j.store.pending.size = (openRequests l.entries).card := by
  apply Tree.size_eq_card
  intro id
  have hvalid := h.represents.wellFormed.valid
  rw [h.pending_isSome, ha.pending]
  cases ho : l.operations id with
  | none =>
    rw [mem_openRequests_iff ((phaseOf_eq_some_iff hvalid).mp (ha.idle id ho))]
    simp [Phase.open?]
  | some st =>
    obtain ⟨-, received, -, -, p, hin, hp⟩ := ha.concerns id st ho
    rw [mem_openRequests_iff ((phaseOf_eq_some_iff hvalid).mp hp), hin.open_iff]
    simp

theorem Refines.accepted (h : Refines sha256 config l j) (ha : Agrees sha256 l)
    (hepoch : ∀ r ∈ l.entries, r.epoch = 1)
    (hopen : ∀ seen, seen <+: l.entries → (openRequests seen).card ≤ maxOpenRequests)
    {maxRecords : UInt64} (hmax : l.entries.length ≤ maxRecords.toNat) :
    Accepted sha256 (genesisTrust config maxRecords)
      (l.entries.map (decodedEntry config.journalId)) := by
  have hw := h.represents.wellFormed
  refine ⟨⟨?_, ?_, ?_, ?_, ?_⟩, ?_, ⟨?_, ?_, ?_⟩⟩
  · intro d hd
    obtain ⟨r, -, rfl⟩ := List.mem_map.mp hd
    rfl
  · intro d hd
    obtain ⟨r, hr, rfl⟩ := List.mem_map.mp hd
    exact hepoch r hr
  · intro i d hd
    rw [List.getElem?_map] at hd
    obtain ⟨r, hr, rfl⟩ := Option.map_eq_some_iff.mp hd
    rw [Nat.add_comm]
    exact hw.numbered i r hr
  · exact HashChain.linked_map _ hw.linked
  · rw [List.map_map]
    exact hw.distinct
  · rw [map_record_decodedEntry]
    exact ha.lifecycles
  · rw [List.length_map]
    exact hmax
  · rw [map_record_decodedEntry]
    exact hopen
  · rw [List.length_map]
    have hb := hw.bounded
    simp only [Ledger.capacity] at hb
    show 1 + _ < _
    omega

end Stream

def Operation.OwnRequest : Operation → Prop
  | appendReceived id _ _ record => record.requestId = id
  | _ => True

theorem Operation.OwnRequest.event {op : Operation} (h : op.OwnRequest) {e : LedgerEvent}
    (he : e ∈ op.events) : e.OwnRequest := by
  cases op <;> simp [Operation.events] at he
  case appendReceived => subst he; exact h
  case complete => rcases he with rfl | rfl <;> trivial
  all_goals subst he; trivial

section Run
variable {sha256 : Hasher} {config : JournalConfig} {faults : Finset FaultPoint}

structure RunState (sha256 : Hasher) (config : JournalConfig) (faults : Finset FaultPoint)
    (ops : List Operation) (l : Ledger) : Prop where
  refines : Refines sha256 config l (runJournal sha256 ops (.create config faults))
  agrees : Agrees sha256 l
  epoch : l.epoch = 1
  epochs : ∀ r ∈ l.entries, r.epoch = 1
  opened : ∀ seen, seen <+: l.entries → (openRequests seen).card ≤ maxOpenRequests
  closed : ∀ kind, terminalCount kind l.entries = closings sha256 kind ops (.create config faults)

theorem runJournal_append (sha256 : Hasher) (ops : List Operation) (op : Operation)
    (j : WitnessJournal) :
    runJournal sha256 (ops ++ [op]) j = op.apply sha256 (runJournal sha256 ops j) := by
  simp [runJournal]

variable {all : List WitnessRecord}

theorem RunState.step {ops : List Operation} {l : Ledger} (h : RunState sha256 config faults ops l)
    {op : Operation} (hstay : ∀ e, op ≠ .advanceEpoch e) (hown : op.OwnRequest)
    (hopen : (runJournal sha256 (ops ++ [op]) (.create config faults)).store.pending.size
      ≤ maxOpenRequests) (hsep : BindingsSeparate sha256 all)
    (hall : ∀ l', Refines sha256 config l' (runJournal sha256 (ops ++ [op]) (.create config faults)) →
      l'.entries <+: all) :
    ∃ l', RunState sha256 config faults (ops ++ [op]) l' := by
  rw [runJournal_append] at hopen hall
  obtain ⟨l', hr, hm⟩ := op.apply_refines h.refines
  have hcount := hm.terminalCount_eq h.refines hr h.agrees
  have hclosed : ∀ kind, terminalCount kind l'.entries
      = closings sha256 kind (ops ++ [op]) (.create config faults) := by
    intro kind
    rw [closings_append, hcount kind, h.closed kind]
  have hr' : Refines sha256 config l' (runJournal sha256 (ops ++ [op]) (.create config faults)) := by
    rw [runJournal_append]
    exact hr
  cases hm with
  | idle => exact ⟨l, hr', h.agrees, h.epoch, h.epochs, h.opened, hclosed⟩
  | advance call next_eq => exact absurd call (hstay _)
  | commit mem step =>
    have ha : Agrees sha256 l' :=
      h.agrees.step step (hown.event mem) (hsep.of_prefix (hall l' hr))
    refine ⟨l', hr', ha, step.epoch_eq.trans h.epoch, ?_, ?_, hclosed⟩
    · obtain ⟨new, hnew, hepoch⟩ := step.entries_append
      intro r hmem
      rw [hnew, List.mem_append] at hmem
      rcases hmem with hmem | hmem
      · exact h.epochs r hmem
      · rw [hepoch r hmem, h.epoch]
    · exact step.opened_le h.opened (by rw [← hr.pending_size ha]; exact hopen)

theorem runState {ops : List Operation} (hstay : ∀ op ∈ ops, ∀ e, op ≠ .advanceEpoch e)
    (hown : ∀ op ∈ ops, op.OwnRequest)
    (hopen : ∀ seen, seen <+: ops →
      (runJournal sha256 seen (.create config faults)).store.pending.size ≤ maxOpenRequests) (hsep : BindingsSeparate sha256 all)
    (hall : ∀ l, Refines sha256 config l (runJournal sha256 ops (.create config faults)) →
      l.entries <+: all) :
    ∃ l, RunState sha256 config faults ops l := by
  induction ops using List.reverseRecOn with
  | nil =>
    refine ⟨.empty, create_refines sha256 config faults, agrees_empty sha256, rfl,
      by simp [Ledger.empty], ?_, fun _ => rfl⟩
    intro seen hseen
    rw [List.prefix_nil.mp hseen]
    simp [openRequests]
  | append_singleton ops op ih =>
    obtain ⟨l, hl⟩ := ih (fun x hx => hstay x (List.mem_append_left _ hx))
      (fun x hx => hown x (List.mem_append_left _ hx))
      (fun seen hseen => hopen seen (hseen.trans (List.prefix_append _ _)))
      (fun l hl => by
        obtain ⟨l', hl', hm⟩ := op.apply_refines hl
        rw [← runJournal_append] at hl'
        exact hm.entries_prefix.trans (hall l' hl'))
    exact hl.step (hstay op (by simp)) (hown op (by simp)) (hopen _ List.prefix_rfl) hsep hall

end Run

theorem pushAll_of_prefix {sha256 : Hasher} {v w : StreamVerifier}
    {seen stored : List Bytes} (hp : seen <+: stored) (h : v.pushAll sha256 stored = .ok w) :
    ∃ u, v.pushAll sha256 seen = .ok u := by
  obtain ⟨rest, rfl⟩ := hp
  rw [StreamVerifier.pushAll, List.foldlM_append, Except.bind_eq_ok] at h
  obtain ⟨u, hu, -⟩ := h
  exact ⟨u, hu⟩

/-- What a journal wrote in one epoch is accepted record by record, and as a whole exactly
when nothing is pending; the report then counts the operations each call closed. -/
theorem journal_verifier_agree (sha256 : Hasher) (config : JournalConfig)
    (faults : Finset FaultPoint) (ops : List Operation) (maxRecords : UInt64)
    (hstay : ∀ op ∈ ops, ∀ e, op ≠ .advanceEpoch e) (hown : ∀ op ∈ ops, op.OwnRequest)
    (hopen : ∀ seen, seen <+: ops →
      (runJournal sha256 seen (.create config faults)).store.pending.size ≤ maxOpenRequests)
    (hmax : ∀ stored, Journal.records (runJournal sha256 ops (.create config faults)) = .ok stored →
      stored.length ≤ maxRecords.toNat)
    (hsep : ∀ stored ds, Journal.records (runJournal sha256 ops (.create config faults)) = .ok stored →
      stored.mapM decodeRecord = .ok ds → BindingsSeparate sha256 (ds.map DecodedRecord.record)) :
    ∃ stored, Journal.records (runJournal sha256 ops (.create config faults)) = .ok stored ∧
      (∀ seen, seen <+: stored → ∃ v,
        StreamVerifier.pushAll sha256 (.new (genesisTrust config maxRecords)) seen = .ok v) ∧
      ((∃ report, verifyStream sha256 stored (genesisTrust config maxRecords) = .ok report) ↔
        (runJournal sha256 ops (.create config faults)).store.pending.size = 0) ∧
      ∀ report, verifyStream sha256 stored (genesisTrust config maxRecords) = .ok report →
        report.terminalDenied = closings sha256 .denied ops (.create config faults) ∧
        report.terminalOutcomes = closings sha256 .outcome ops (.create config faults) ∧
        report.terminalRecoveries = closings sha256 .recovery ops (.create config faults) := by
  obtain ⟨l₀, h₀, -⟩ := runJournal_refines ops (create_refines sha256 config faults)
  have hsep₀ := hsep _ _ h₀.records_eq (mapM_decodeRecord _ h₀.represents.wellFormed.valid)
  rw [map_record_decodedEntry] at hsep₀
  obtain ⟨l, hl⟩ := runState hstay hown hopen hsep₀
    (fun l hl => by rw [hl.entries_unique h₀])
  have hvalid := hl.refines.represents.wellFormed.valid
  have hlen := hmax _ hl.refines.records_eq
  rw [List.length_map] at hlen
  have hacc := hl.refines.accepted hl.agrees hl.epochs hl.opened hlen
  obtain ⟨v, hpush, hstate⟩ := pushAll_of_accepted (mapM_decodeRecord _ hvalid) hacc
  have htracks := hstate.tracks
  have htallied := hstate.tallied
  rw [map_record_decodedEntry] at htracks htallied
  have hsize : v.lifecycles.size
      = (runJournal sha256 ops (.create config faults)).store.pending.size := by
    rw [hl.refines.pending_size hl.agrees]
    exact htracks.size_eq hvalid hl.agrees.lifecycles
  have hterminal : ∀ kind, v.report.terminal kind
      = closings sha256 kind ops (.create config faults) := by
    intro kind
    rw [htallied.unique (tallied_countP hl.agrees.lifecycles), ← hl.closed kind]
    rfl
  refine ⟨_, hl.refines.records_eq, fun seen hseen => pushAll_of_prefix hseen hpush, ?_, ?_⟩
  · rw [← hsize]
    constructor
    · rintro ⟨report, hok⟩
      obtain ⟨w, hw, hclosed, -⟩ := verifyStream_eq_ok.mp hok
      obtain rfl := Except.ok.inj (hpush.symm.trans hw)
      exact hclosed
    · exact fun hclosed => ⟨_, verifyStream_eq_ok.mpr ⟨v, hpush, hclosed, rfl⟩⟩
  · intro report hok
    obtain ⟨w, hw, -, rfl⟩ := verifyStream_eq_ok.mp hok
    obtain rfl := Except.ok.inj (hpush.symm.trans hw)
    exact ⟨hterminal .denied, hterminal .outcome, hterminal .recovery⟩

def deniedRun : List Operation :=
  let plain (n : UInt8) := plainRecord (.fill 16 7) (.fill 16 n)
  [.appendReceived (.fill 16 7) 1 plainRecipe (plain 1 .requestReceived),
    .deny (.fill 16 7)
      { plain 2 .decision with decision := some false, reason := some .policyDenied }
      (plain 3 .denied)]

def fits (binding : Bytes) (j : WitnessJournal) : Bool :=
  match Journal.records j with
  | .error _ => false
  | .ok stored =>
    match stored.mapM decodeRecord with
    | .error _ => false
    | .ok ds => j.store.pending.size ≤ maxOpenRequests && stored.length ≤ 1000000
        && ds.all fun d => bindingPreimage d.record = binding

theorem fits_spec {binding : Bytes} {j : WitnessJournal} (h : fits binding j = true) :
    j.store.pending.size ≤ maxOpenRequests ∧
      (∀ stored, Journal.records j = .ok stored → stored.length ≤ 1000000) ∧
      ∀ stored ds, Journal.records j = .ok stored → stored.mapM decodeRecord = .ok ds →
        ∀ d ∈ ds, bindingPreimage d.record = binding := by
  unfold fits at h
  split at h
  · cases h
  · rename_i stored hstored
    split at h
    · cases h
    · rename_i ds hds
      simp only [Bool.and_eq_true, decide_eq_true_eq, List.all_eq_true] at h
      refine ⟨h.1.1, ?_, ?_⟩
      · intro stored' hs
        obtain rfl := Except.ok.inj (hstored.symm.trans hs)
        exact h.1.2
      · intro stored' ds' hs hd
        obtain rfl := Except.ok.inj (hstored.symm.trans hs)
        obtain rfl := Except.ok.inj (hds.symm.trans hd)
        exact h.2

theorem deniedRun_fits : ∀ ops ∈ deniedRun.inits,
    fits (bindingPreimage (plainRecord (.fill 16 7) (.zero 16) .requestReceived))
      (runJournal Sha256.sha256 ops (.create (.new (.zero 16) .required) ∅)) = true := by
  rw [Sha256.sha256_eq_unrolled]
  decide +kernel

theorem journal_verifier_agree_denied :
    ∃ stored, Journal.records
        (runJournal Sha256.sha256 deniedRun (.create (.new (.zero 16) .required) ∅)) = .ok stored ∧
      (∀ seen, seen <+: stored → ∃ v, StreamVerifier.pushAll Sha256.sha256
        (.new (genesisTrust (.new (.zero 16) .required) 1000000)) seen = .ok v) ∧
      ∀ report, verifyStream Sha256.sha256 stored
          (genesisTrust (.new (.zero 16) .required) 1000000) = .ok report →
        report.terminalDenied
          = closings Sha256.sha256 .denied deniedRun (.create (.new (.zero 16) .required) ∅) := by
  have hlast := fits_spec (deniedRun_fits deniedRun (by simp [deniedRun]))
  obtain ⟨stored, hstored, hpush, -, hcounts⟩ := journal_verifier_agree Sha256.sha256
    (.new (.zero 16) .required) ∅ deniedRun 1000000 (by simp [deniedRun])
    (by simp [deniedRun, Operation.OwnRequest]; rfl)
    (fun seen hseen => (fits_spec (deniedRun_fits seen (List.mem_inits _ _ |>.mpr hseen))).1)
    hlast.2.1
    (fun stored ds hs hd r hr r' hr' _ => by
      obtain ⟨d, hd', rfl⟩ := List.mem_map.mp hr
      obtain ⟨d', hd'', rfl⟩ := List.mem_map.mp hr'
      rw [hlast.2.2 stored ds hs hd d hd', hlast.2.2 stored ds hs hd d' hd''])
  exact ⟨stored, hstored, hpush, fun report hok => (hcounts report hok).1⟩

end Ferrocrate.Witness

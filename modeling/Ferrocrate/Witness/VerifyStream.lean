import Ferrocrate.Witness.Acceptance

/-! Runs of the stream verifier: what it holds after the records it took, and the exact set
of streams it accepts. -/
namespace Ferrocrate.Witness
open Lib

structure StateOf (sha256 : Hasher) (trust : StreamTrust) (ds : List DecodedRecord)
    (v : StreamVerifier) : Prop where
  trust_eq : v.trust = trust
  sequence : v.expectedSequence.toNat = trust.expectedFirstSequence.toNat + ds.length
  hash : v.previousHash = HashChain.tip (fun d => hashRecord sha256 d.bytes)
    trust.expectedPredecessorHash ds
  events : ∀ e, e ∈ v.eventIds ↔ e ∈ ds.map fun d => d.record.eventId
  tracks : Tracks v.progress (phases (ds.map DecodedRecord.record))
  tallied : Tallied v.report.terminal (phases (ds.map DecodedRecord.record))
  report_eq : ∃ denied outcomes recoveries, v.report
    = ⟨true, true, none, .unknownTail, none, ds.length, denied, outcomes, recoveries, 0⟩

variable {sha256 : Hasher} {trust : StreamTrust} {ds : List DecodedRecord}

theorem stateOf_new (sha256 : Hasher) (trust : StreamTrust) :
    StateOf sha256 trust [] (.new trust) where
  trust_eq := rfl
  sequence := rfl
  hash := rfl
  events := by simp [StreamVerifier.new]
  tracks := ⟨fun _ => rfl, by simp [StreamVerifier.new, phases, phaseOf, ofRequest, runPhase]⟩
  tallied := by
    intro kind
    refine ⟨∅, by simp [phases, phaseOf, ofRequest, runPhase], ?_⟩
    cases kind <;> rfl
  report_eq := ⟨0, 0, 0, rfl⟩

theorem Tracks.size_eq {progress : Progress} {rs : List ParsedRecord}
    (h : Tracks progress (phases rs)) (hv : ∀ r ∈ rs, validRecord r = true)
    (hl : ∀ id, (phaseOf id rs).isSome = true) :
    progress.1.size = (openRequests rs).card := by
  apply Tree.size_eq_card
  intro id
  obtain ⟨p, hp⟩ := Option.isSome_iff_exists.mp (hl id)
  rw [h.states, phases, hp, Option.getD_some]
  exact mem_openRequests_iff ((phaseOf_eq_some_iff hv).mp hp)

theorem checkedAdd_one_eq_some_iff {x : UInt64} :
    (∃ y, checkedAdd x 1 = some y) ↔ x.toNat + 1 < 2 ^ 64 := by
  unfold checkedAdd
  split <;> simp_all

theorem VerificationReport.move_eq (report : VerificationReport) (p p' : Phase) :
    ∃ denied outcomes recoveries, report.move p p' = { report with
      terminalDenied := denied, terminalOutcomes := outcomes, terminalRecoveries := recoveries } := by
  cases p with
  | active lifecycle =>
    cases p' with
    | closed kind => cases kind <;> exact ⟨_, _, _, rfl⟩
    | _ => exact ⟨_, _, _, rfl⟩
  | _ => exact ⟨_, _, _, rfl⟩

section Push
variable {v : StreamVerifier} {d : DecodedRecord}

theorem StateOf.transition_eq (h : StateOf sha256 trust ds v)
    (hl : ∀ id, (phaseOf id (ds.map DecodedRecord.record)).isSome = true) {p : Phase}
    (hp : (phases (ds.map DecodedRecord.record) d.record.requestId).advance d.record = some p) :
    ∃ progress, transition d.record v.progress = .ok progress ∧
      progress.2.2 = v.report.move (phases (ds.map DecodedRecord.record) d.record.requestId) p ∧
      Tracks progress (phases ((ds ++ [d]).map DecodedRecord.record)) ∧
      Tallied progress.2.2.terminal (phases ((ds ++ [d]).map DecodedRecord.record)) := by
  have hspec := transition_spec h.tracks d.record
  rw [hp] at hspec
  obtain ⟨states', ids', htrans, htracks⟩ := hspec
  rw [List.map_append, List.map_singleton, phases_append (hl _) hp]
  refine ⟨_, htrans, rfl, htracks, ?_⟩
  have hcount : (v.report.move _ p).terminal = _ := funext (v.report.terminal_move hp)
  exact hcount ▸ h.tallied.advance hp

theorem StateOf.advance_isSome (h : StateOf sha256 trust ds v) {progress : Progress}
    (ht : transition d.record v.progress = .ok progress) :
    ((phases (ds.map DecodedRecord.record) d.record.requestId).advance d.record).isSome = true := by
  have hspec := transition_spec h.tracks d.record
  cases hp : (phases (ds.map DecodedRecord.record) d.record.requestId).advance d.record with
  | some p => rfl
  | none =>
    rw [hp] at hspec
    obtain ⟨e, he⟩ := hspec
    cases he.symm.trans ht

variable {bytes : Bytes} (hd : decodeRecord bytes = .ok d)
  (hv : ∀ d ∈ ds, validRecord d.record = true)
  (hl : ∀ id, (phaseOf id (ds.map DecodedRecord.record)).isSome = true)
include hd hv hl

theorem Tracks.size_append {progress : Progress}
    (ht : Tracks progress (phases ((ds ++ [d]).map DecodedRecord.record)))
    (hp : ((phases (ds.map DecodedRecord.record) d.record.requestId).advance
      d.record).isSome = true) :
    progress.1.size = (openRequests ((ds ++ [d]).map DecodedRecord.record)).card := by
  refine ht.size_eq ?_ ?_
  · intro r hr
    obtain ⟨x, hx, rfl⟩ := List.mem_map.mp hr
    rcases List.mem_append.mp hx with hx | hx
    · exact hv x hx
    · rw [List.mem_singleton.mp hx]
      exact (decodeRecord_spec hd).1
  · rw [List.map_append, List.map_singleton, lifecycles_append]
    exact ⟨hl, hp⟩

theorem StateOf.push (h : StateOf sha256 trust ds v) (ht : Takes sha256 trust ds d) :
    ∃ v', v.push sha256 bytes = .ok v' ∧ StateOf sha256 trust (ds ++ [d]) v' := by
  obtain ⟨p, hp⟩ := Option.isSome_iff_exists.mp ht.lifecycle
  obtain ⟨progress, htrans, hmove, htracks, htallied⟩ := h.transition_eq hl hp
  obtain ⟨next, hnext⟩ := checkedAdd_one_eq_some_iff (x := v.expectedSequence).mpr
    (by rw [h.sequence]; exact ht.next)
  obtain ⟨denied, outcomes, recoveries, hreport⟩ := h.report_eq
  refine ⟨v.took sha256 d progress next, StreamVerifier.push_eq_ok_iff.mpr ⟨?_, d, progress, next,
    hd, ?_, ?_, ?_, ?_, ?_, htrans, ?_, hnext, rfl⟩, ?_⟩
  · rw [hreport, h.trust_eq]
    exact ht.room
  · rw [h.trust_eq]
    exact ht.journal
  · rw [h.trust_eq]
    exact ht.epoch
  · exact UInt64.toNat_inj.mp (ht.sequence.trans h.sequence.symm)
  · rw [h.events]
    exact ht.event
  · rw [h.hash]
    exact ht.link
  · rw [htracks.size_append hd hv hl ht.lifecycle]
    exact ht.opened
  · refine ⟨h.trust_eq, ?_, ?_, ?_, ⟨htracks.states, htracks.requestIds⟩,
      (funext fun kind => by cases kind <;> rfl : _ = progress.2.2.terminal) ▸ htallied, ?_⟩
    · rw [List.length_append, List.length_singleton, ← Nat.add_assoc, ← h.sequence]
      exact toNat_checkedAdd hnext
    · rw [HashChain.tip_append_singleton]
      rfl
    · intro e
      simp only [StreamVerifier.took, Finset.mem_insert, h.events, List.map_append,
        List.mem_append, List.map_singleton, List.mem_singleton]
      exact or_comm
    · obtain ⟨denied', outcomes', recoveries', hmoved⟩ := v.report.move_eq
        (phases (ds.map DecodedRecord.record) d.record.requestId) p
      refine ⟨denied', outcomes', recoveries', ?_⟩
      rw [← hmove, hreport] at hmoved
      simp [StreamVerifier.report, StreamVerifier.took, hmoved]

theorem StateOf.takes (h : StateOf sha256 trust ds v) {v' : StreamVerifier}
    (hp : v.push sha256 bytes = .ok v') :
    Takes sha256 trust ds d := by
  obtain ⟨hmax, d', progress, next, hd', hj, he, hs, hev, hprev, htrans, hopen, hnext, rfl⟩ :=
    StreamVerifier.push_eq_ok_iff.mp hp
  obtain rfl := Except.ok.inj (hd.symm.trans hd')
  have hadv := h.advance_isSome htrans
  obtain ⟨p, hp⟩ := Option.isSome_iff_exists.mp hadv
  obtain ⟨progress', htrans', -, htracks, -⟩ := h.transition_eq hl hp
  obtain rfl := Except.ok.inj (htrans.symm.trans htrans')
  obtain ⟨denied, outcomes, recoveries, hreport⟩ := h.report_eq
  have hnext' := checkedAdd_one_eq_some_iff.mp ⟨next, hnext⟩
  rw [h.trust_eq] at hmax hj he
  rw [hreport] at hmax
  rw [h.events] at hev
  rw [h.sequence] at hnext'
  exact ⟨hmax, hj, he, by rw [hs, h.sequence], hev, by rw [hprev, h.hash], hadv,
    by rw [← htracks.size_append hd hv hl hadv]; exact hopen, hnext'⟩

end Push

variable {stored : List Bytes}

theorem pushAll_append_singleton {v v' : StreamVerifier} {bytes : Bytes} :
    v.pushAll sha256 (stored ++ [bytes]) = .ok v' ↔
      ∃ w, v.pushAll sha256 stored = .ok w ∧ w.push sha256 bytes = .ok v' := by
  simp [StreamVerifier.pushAll, List.foldlM_append, Except.bind_eq_ok]

theorem accepted_nil : Accepted sha256 trust [] where
  chained := ⟨by simp, by simp, by simp, trivial, List.nodup_nil⟩
  lifecycles := fun _ => rfl
  limits := ⟨Nat.zero_le _, by simp [openRequests], by simpa using trust.expectedFirstSequence.toNat_lt⟩

theorem accepted_of_pushAll {v : StreamVerifier}
    (h : StreamVerifier.pushAll sha256 (.new trust) stored = .ok v) :
    ∃ ds, stored.mapM decodeRecord = .ok ds ∧ Accepted sha256 trust ds ∧
      StateOf sha256 trust ds v := by
  induction stored using List.reverseRecOn generalizing v with
  | nil =>
    cases h
    exact ⟨[], rfl, accepted_nil, stateOf_new sha256 trust⟩
  | append_singleton stored bytes ih =>
    obtain ⟨w, hw, hpush⟩ := pushAll_append_singleton.mp h
    obtain ⟨ds, hds, hacc, hstate⟩ := ih hw
    obtain ⟨-, d, -, -, hd, -⟩ := StreamVerifier.push_eq_ok_iff.mp hpush
    have hv := valid_of_mapM hds
    have htakes := hstate.takes hd hv hacc.lifecycles hpush
    obtain ⟨v', hv', hstate'⟩ := hstate.push hd hv hacc.lifecycles htakes
    obtain rfl := Except.ok.inj (hpush.symm.trans hv')
    exact ⟨ds ++ [d], mapM_append_singleton.mpr ⟨ds, d, hds, hd, rfl⟩,
      accepted_append.mpr ⟨hacc, htakes⟩, hstate'⟩

theorem pushAll_of_accepted {ds : List DecodedRecord}
    (hds : stored.mapM decodeRecord = .ok ds) (h : Accepted sha256 trust ds) :
    ∃ v, StreamVerifier.pushAll sha256 (.new trust) stored = .ok v ∧ StateOf sha256 trust ds v := by
  induction stored using List.reverseRecOn generalizing ds with
  | nil =>
    cases hds
    exact ⟨_, rfl, stateOf_new sha256 trust⟩
  | append_singleton stored bytes ih =>
    obtain ⟨init, d, hinit, hd, rfl⟩ := mapM_append_singleton.mp hds
    obtain ⟨hacc, htakes⟩ := accepted_append.mp h
    obtain ⟨w, hw, hstate⟩ := ih hinit hacc
    obtain ⟨v, hpush, hstate'⟩ := hstate.push hd (valid_of_mapM hinit) hacc.lifecycles htakes
    exact ⟨v, pushAll_append_singleton.mpr ⟨w, hw, hpush⟩, hstate'⟩

/-- A stream as the verifier is meant to accept it: chained, and every request with one of
the complete lifecycles once publications under its id are set aside. -/
structure WellFormedStream (sha256 : Hasher) (trust : StreamTrust)
    (ds : List DecodedRecord) : Prop where
  chained : Chained sha256 trust ds
  complete : ∀ id, lifecycleOf id (ds.map DecodedRecord.record) = [] ∨
    ∃ kind, CompletedAs kind (lifecycleOf id (ds.map DecodedRecord.record))

def completedRequests (kind : Terminal) (ds : List DecodedRecord) : Set Id :=
  { id | CompletedAs kind (lifecycleOf id (ds.map DecodedRecord.record)) }

noncomputable def reportOf (ds : List DecodedRecord) : VerificationReport where
  integrity := true
  lifecycleConsistent := true
  completenessThroughCheckpoint := none
  tailFreshness := .unknownTail
  checkpointAge := none
  records := ds.length
  terminalDenied := (completedRequests .denied ds).ncard
  terminalOutcomes := (completedRequests .outcome ds).ncard
  terminalRecoveries := (completedRequests .recovery ds).ncard
  discontinuities := 0

section Finish
variable (hv : ∀ d ∈ ds, validRecord d.record = true)
  (hl : ∀ id, (phaseOf id (ds.map DecodedRecord.record)).isSome = true)
include hv hl

theorem phases_leadsTo (id : Id) :
    LeadsTo (phases (ds.map DecodedRecord.record) id)
      (lifecycleOf id (ds.map DecodedRecord.record)) := by
  obtain ⟨p, hp⟩ := Option.isSome_iff_exists.mp (hl id)
  rw [phases, hp, Option.getD_some]
  refine (phaseOf_eq_some_iff ?_).mp hp
  intro r hr
  obtain ⟨d, hd, rfl⟩ := List.mem_map.mp hr
  exact hv d hd

theorem phases_eq_closed_iff {id : Id} {kind : Terminal} :
    phases (ds.map DecodedRecord.record) id = .closed kind ↔ id ∈ completedRequests kind ds := by
  constructor
  · intro h
    have hlead := phases_leadsTo hv hl id
    rw [h] at hlead
    exact leadsTo_closed_iff.mp hlead
  · intro h
    rw [phases, phaseOf_eq_runPhase, (leadsTo_closed_iff.mpr h).runPhase_eq, Option.getD_some]

theorem Tallied.terminal_eq {report : VerificationReport}
    (h : Tallied report.terminal (phases (ds.map DecodedRecord.record))) (kind : Terminal) :
    report.terminal kind = (completedRequests kind ds).ncard := by
  obtain ⟨ids, hids, hcard⟩ := h kind
  have hset : completedRequests kind ds = ids := by
    ext id
    rw [Finset.mem_coe, hids, phases_eq_closed_iff hv hl]
  rw [hcard, hset, Set.ncard_coe_finset]

theorem StateOf.report_eq_reportOf {v : StreamVerifier} (h : StateOf sha256 trust ds v) :
    v.report = reportOf ds := by
  obtain ⟨denied, outcomes, recoveries, hreport⟩ := h.report_eq
  have hterminal := h.tallied.terminal_eq hv hl
  rw [hreport] at hterminal ⊢
  have hd := hterminal .denied
  have ho := hterminal .outcome
  have hr := hterminal .recovery
  simp only [VerificationReport.terminal] at hd ho hr
  rw [reportOf, hd, ho, hr]

theorem StateOf.closed_iff {v : StreamVerifier} (h : StateOf sha256 trust ds v) :
    v.lifecycles.size = 0 ↔ ∀ id, lifecycleOf id (ds.map DecodedRecord.record) = [] ∨
      ∃ kind, CompletedAs kind (lifecycleOf id (ds.map DecodedRecord.record)) := by
  have hvalid : ∀ r ∈ ds.map DecodedRecord.record, validRecord r = true := by
    intro r hr
    obtain ⟨d, hd, rfl⟩ := List.mem_map.mp hr
    exact hv d hd
  rw [StreamVerifier.lifecycles, h.tracks.size_eq hvalid hl, Finset.card_eq_zero,
    Finset.eq_empty_iff_forall_notMem]
  refine forall_congr' fun id => ?_
  have hlead := phases_leadsTo hv hl id
  rw [mem_openRequests_iff hlead]
  constructor
  · intro hopen
    cases hp : phases (ds.map DecodedRecord.record) id with
    | idle =>
      rw [hp] at hlead
      exact .inl (leadsTo_idle_iff.mp hlead)
    | active lifecycle =>
      rw [hp] at hopen
      exact absurd rfl hopen
    | closed kind =>
      rw [hp] at hlead
      exact .inr ⟨kind, leadsTo_closed_iff.mp hlead⟩
  · rintro (hnil | ⟨kind, hdone⟩)
    · rw [phases, phaseOf_eq_runPhase, (leadsTo_idle_iff.mpr hnil).runPhase_eq, Option.getD_some]
      simp [Phase.open?]
    · rw [phases, phaseOf_eq_runPhase, (leadsTo_closed_iff.mpr hdone).runPhase_eq,
        Option.getD_some]
      simp [Phase.open?]

end Finish

theorem verifyStream_eq_ok {report : VerificationReport} :
    verifyStream sha256 stored trust = .ok report ↔
      ∃ v, StreamVerifier.pushAll sha256 (.new trust) stored = .ok v ∧ v.lifecycles.size = 0 ∧
        report = v.report := by
  simp only [verifyStream, Except.bind_eq_ok, StreamVerifier.finish, Except.ite_error_eq_ok,
    Except.ok.injEq, ne_eq, not_not]
  refine exists_congr fun v => ?_
  rw [eq_comm (a := report)]

theorem WellFormedStream.lifecycles (h : WellFormedStream sha256 trust ds) (id : Id) :
    (phaseOf id (ds.map DecodedRecord.record)).isSome = true := by
  rcases h.complete id with hnil | ⟨kind, hdone⟩
  · rw [phaseOf_eq_runPhase, (leadsTo_idle_iff.mpr hnil).runPhase_eq]
    rfl
  · rw [phaseOf_eq_runPhase, (leadsTo_closed_iff.mpr hdone).runPhase_eq]
    rfl

/-- The verifier accepts exactly the well-formed streams within its limits, and reports how
many requests ended in each way. -/
theorem verifyStream_ok_iff (sha256 : Hasher) (trust : StreamTrust) (stored : List Bytes)
    (report : VerificationReport) :
    verifyStream sha256 stored trust = .ok report ↔
      ∃ ds, stored.mapM decodeRecord = .ok ds ∧ WellFormedStream sha256 trust ds ∧
        WithinLimits trust ds ∧ report = reportOf ds := by
  rw [verifyStream_eq_ok]
  constructor
  · rintro ⟨v, hpush, hclosed, rfl⟩
    obtain ⟨ds, hds, hacc, hstate⟩ := accepted_of_pushAll hpush
    have hv := valid_of_mapM hds
    exact ⟨ds, hds, ⟨hacc.chained, (hstate.closed_iff hv hacc.lifecycles).mp hclosed⟩, hacc.limits,
      hstate.report_eq_reportOf hv hacc.lifecycles⟩
  · rintro ⟨ds, hds, hform, hlimits, rfl⟩
    have hv := valid_of_mapM hds
    obtain ⟨v, hpush, hstate⟩ :=
      pushAll_of_accepted hds ⟨hform.chained, hform.lifecycles, hlimits⟩
    exact ⟨v, hpush, (hstate.closed_iff hv hform.lifecycles).mpr hform.complete,
      (hstate.report_eq_reportOf hv hform.lifecycles).symm⟩

theorem card_openRequests_le (rs : List ParsedRecord) : (openRequests rs).card ≤ rs.length := by
  calc (openRequests rs).card
      ≤ ((rs.filter fun r => r.stage = .requestReceived).map WitnessRecord.requestId).toFinset.card :=
        Finset.card_le_card Finset.sdiff_subset
    _ ≤ ((rs.filter fun r => r.stage = .requestReceived).map WitnessRecord.requestId).length :=
        List.toFinset_card_le _
    _ ≤ rs.length := by
        rw [List.length_map]
        exact List.length_filter_le _ _

def publishedMidway (sha256 : Hasher) : List WitnessRecord :=
  let plain (n : UInt8) (stage : WitnessStage) (sequence : UInt64) (previous : Digest) :=
    { plainRecord (.fill 16 7) (.fill 16 n) stage with
      sequence := sequence, previousHash := previous }
  let hash (r : WitnessRecord) := hashRecord sha256 (decodedEntry (.zero 16) r).bytes
  let received := plain 1 .requestReceived 1 (.zero 32)
  let decision := plain 2 .decision 2 (hash received)
  let published := plain 3 .checkpointPublished 3 (hash decision)
  let outcome := plain 4 .outcome 4 (hash published)
  [received, decision, published, outcome]

/-- With publications counted among a request's records the shapes are too few, whatever the
hash is: a publication may carry the id of a request. -/
theorem publication_inside_lifecycle :
    ¬ ∃ sha256 : Hasher, ∀ stored trust report,
      verifyStream sha256 stored trust = .ok report →
      ∃ ds, stored.mapM decodeRecord = .ok ds ∧
        ∀ id, (∃ r ∈ ofRequest id (ds.map DecodedRecord.record), r.stage ≠ .checkpointPublished) →
          ∃ kind, CompletedAs kind (ofRequest id (ds.map DecodedRecord.record)) := by
  rintro ⟨sha256, h⟩
  have hvalid : (publishedMidway sha256).all validRecord = true := rfl
  have hid : (publishedMidway sha256).all (fun r => r.requestId = .fill 16 7) = true := rfl
  have hepoch : (publishedMidway sha256).all (fun r => r.epoch = 1) = true := rfl
  simp only [List.all_eq_true, decide_eq_true_eq] at hvalid hid hepoch
  have hdecode := mapM_decodeRecord (.zero 16) hvalid
  have hdecoded : ((publishedMidway sha256).map (decodedEntry (.zero 16))).map DecodedRecord.record
      = publishedMidway sha256 := rfl
  have hphase : ∀ id, phaseOf id (publishedMidway sha256)
      = some (if id = .fill 16 7 then .closed .outcome else .idle) := by
    intro id
    by_cases h7 : id = .fill 16 7
    · subst h7
      rfl
    · have hnil : ofRequest id (publishedMidway sha256) = [] := by
        rw [ofRequest, List.filter_eq_nil_iff]
        intro r hr
        simp [hid r hr, Ne.symm h7]
      rw [phaseOf, hnil, if_neg h7]
      rfl
  have hacc : Accepted sha256 (.new (.zero 16) 1 1 (.zero 32))
      ((publishedMidway sha256).map (decodedEntry (.zero 16))) := by
    refine ⟨⟨?_, ?_, ?_, ⟨rfl, rfl, rfl, rfl, trivial⟩, ?_⟩, ?_, ⟨?_, ?_, ?_⟩⟩
    · intro d hd
      obtain ⟨r, -, rfl⟩ := List.mem_map.mp hd
      rfl
    · intro d hd
      obtain ⟨r, hr, rfl⟩ := List.mem_map.mp hd
      exact hepoch r hr
    · intro i d hd
      rcases i with _ | _ | _ | _ | i
      all_goals cases hd
      all_goals rfl
    · show [FixedBytes.fill 16 1, .fill 16 2, .fill 16 3, .fill 16 4].Nodup
      decide
    · intro id
      rw [hdecoded, hphase]
      rfl
    · show 4 ≤ 1000000
      decide
    · intro seen hseen
      have hlen : seen.length ≤ 4 := hseen.length_le
      have hcard := card_openRequests_le seen
      simp only [maxOpenRequests]
      omega
    · show 1 + 4 < 2 ^ 64
      decide
  obtain ⟨v, hpush, hstate⟩ := pushAll_of_accepted hdecode hacc
  have hclosed : v.lifecycles.size = 0 := by
    refine (hstate.closed_iff (valid_of_mapM hdecode) hacc.lifecycles).mpr fun id => ?_
    have hlead := (phaseOf_eq_some_iff hvalid).mp (hphase id)
    rw [hdecoded]
    split at hlead
    · exact .inr ⟨_, leadsTo_closed_iff.mp hlead⟩
    · exact .inl (leadsTo_idle_iff.mp hlead)
  obtain ⟨ds, hds, hshapes⟩ := h _ _ _ (verifyStream_eq_ok.mpr ⟨v, hpush, hclosed, rfl⟩)
  obtain rfl := Except.ok.inj (hdecode.symm.trans hds)
  obtain ⟨kind, hkind⟩ := hshapes (.fill 16 7) ⟨_, List.mem_cons_self, by decide⟩
  have hpublished : (ofRequest (.fill 16 7) (publishedMidway sha256)).all
      (fun r => r.stage ≠ .checkpointPublished) = false := rfl
  rw [hdecoded] at hkind
  cases hpublished.symm.trans hkind.not_published

end Ferrocrate.Witness

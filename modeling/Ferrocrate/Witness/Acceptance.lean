import Ferrocrate.Witness.Layout
import Ferrocrate.Witness.LifecycleShape
import Mathlib.Data.Set.Card

/-! The language of the stream verifier: what a stream has to look like to be accepted, and
what its report then counts. -/
namespace Ferrocrate.Witness
open Lib

namespace StreamVerifier
variable {sha256 : Hasher}

def took (sha256 : Hasher) (v : StreamVerifier) (d : DecodedRecord) (progress : Progress)
    (next : UInt64) : StreamVerifier where
  trust := v.trust
  expectedSequence := next
  previousHash := hashRecord sha256 d.bytes
  eventIds := insert d.record.eventId v.eventIds
  progress := (progress.1, progress.2.1,
    { progress.2.2 with records := progress.2.2.records + 1 })

theorem push_eq_ok_iff {v v' : StreamVerifier} {bytes : Bytes} :
    push sha256 v bytes = .ok v' ↔ v.report.records < v.trust.maxRecords.toNat ∧
      ∃ d progress next, decodeRecord bytes = .ok d ∧
        d.journalId = v.trust.expectedJournalId ∧ d.record.epoch = v.trust.expectedEpoch ∧
        d.record.sequence = v.expectedSequence ∧ d.record.eventId ∉ v.eventIds ∧
        d.record.previousHash = v.previousHash ∧ transition d.record v.progress = .ok progress ∧
        progress.1.size ≤ maxOpenRequests ∧ checkedAdd v.expectedSequence 1 = some next ∧
        v' = v.took sha256 d progress next := by
  unfold push
  simp only [Except.ite_error_eq_ok, Except.bind_eq_ok]
  constructor
  · rintro ⟨hmax, d, hd, hj, he, hseq, hprev, _, -, ⟨states, ids, report⟩, ht, hopen, h⟩
    push Not at hmax hj he hseq hprev hopen
    split at h
    · cases h
    · rename_i next hnext
      cases h
      exact ⟨hmax, d, _, next, hd, hj, he, hseq.1, hseq.2, hprev, ht, hopen, hnext, rfl⟩
  · rintro ⟨hmax, d, ⟨states, ids, report⟩, next, hd, hj, he, hs, hev, hp, ht, hopen, hnext, rfl⟩
    have hv : validateRecord d.record = .ok () :=
      (validateRecord_ok_iff _).mpr (decodeRecord_spec hd).1
    refine ⟨by omega, d, hd, by simp [hj], by simp [he], by simp [hs, hev], by simp [hp], (), hv,
      _, ht, by simpa using hopen, ?_⟩
    rw [hnext]
    rfl

end StreamVerifier

def phases (rs : List ParsedRecord) (id : Id) : Phase := (phaseOf id rs).getD .idle

def VerificationReport.terminal (report : VerificationReport) : Terminal → Nat
  | .denied => report.terminalDenied
  | .outcome => report.terminalOutcomes
  | .recovery => report.terminalRecoveries

def Tallied (count : Terminal → Nat) (phase : Id → Phase) : Prop :=
  ∀ kind, ∃ ids : Finset Id, (∀ id, id ∈ ids ↔ phase id = .closed kind) ∧ count kind = ids.card

theorem Tallied.unique {count count' : Terminal → Nat} {phase : Id → Phase}
    (h : Tallied count phase) (h' : Tallied count' phase) : count = count' := by
  funext kind
  obtain ⟨ids, hids, hcard⟩ := h kind
  obtain ⟨ids', hids', hcard'⟩ := h' kind
  have heq : ids = ids' := by
    ext id
    rw [hids, hids']
  rw [hcard, hcard', heq]

def terminalOf (r : ParsedRecord) : Option Terminal :=
  match r.stage with
  | .denied => some .denied
  | .outcome => if r.outcome = .outcomeUnknown then none else some .outcome
  | .recovery => some .recovery
  | _ => none

theorem advance_cases {p p' : Phase} {r : ParsedRecord} (h : p.advance r = some p') :
    (∃ lifecycle kind, p = .active lifecycle ∧ terminalOf r = some kind ∧ p' = .closed kind) ∨
    (terminalOf r = none ∧ (p' = p ∨
      (∃ lifecycle, p' = .active lifecycle) ∧ ∀ kind, p ≠ .closed kind)) := by
  cases p with
  | idle =>
    cases hs : r.stage <;> simp_all [Phase.advance, terminalOf]
    simp [← h]
  | closed kind' => cases hs : r.stage <;> simp_all [Phase.advance, terminalOf]
  | active lifecycle =>
    cases hs : r.stage <;> cases lifecycle <;> simp_all [Phase.advance, terminalOf]
    · cases hd : r.decisionId <;> simp_all
      exact .inr ⟨_, h.2.symm⟩
    · by_cases hu : r.outcome = .outcomeUnknown
      · rw [if_pos hu] at h
        exact .inr ⟨hu, .inr ⟨_, h.2.symm⟩⟩
      · rw [if_neg hu] at h
        exact .inl ⟨hu, h.2.symm⟩

theorem VerificationReport.terminal_move (report : VerificationReport) {p p' : Phase}
    {r : ParsedRecord} (h : p.advance r = some p') (kind : Terminal) :
    (report.move p p').terminal kind
      = report.terminal kind + if terminalOf r = some kind then 1 else 0 := by
  rcases advance_cases h with ⟨lifecycle, kind', rfl, ht, rfl⟩ | ⟨ht, rfl | ⟨⟨lifecycle, rfl⟩, -⟩⟩
  · rw [ht]
    cases kind' <;> cases kind <;> simp [move, count, terminal]
  · cases p' <;> simp [move, ht]
  · cases p <;> simp [move, ht]

theorem Tallied.advance {count : Terminal → Nat} {phase : Id → Phase} {id : Id} {p : Phase}
    {r : ParsedRecord} (h : Tallied count phase) (ha : (phase id).advance r = some p) :
    Tallied (fun kind => count kind + if terminalOf r = some kind then 1 else 0)
      (Function.update phase id p) := by
  intro kind
  obtain ⟨ids, hids, hcard⟩ := h kind
  have hother : ∀ {k}, k ≠ id → (k ∈ ids ↔ Function.update phase id p k = .closed kind) := by
    intro k hk
    rw [Function.update_of_ne hk, hids]
  by_cases hc : terminalOf r = some kind
  · rcases advance_cases ha with ⟨lifecycle, kind', hp, ht, rfl⟩ | ⟨ht, -⟩
    · obtain rfl := Option.some.inj (ht.symm.trans hc)
      have hnot : id ∉ ids := by
        rw [hids, hp]
        simp
      refine ⟨insert id ids, ?_, by simp [hc, hcard, Finset.card_insert_of_notMem hnot]⟩
      intro k
      by_cases hk : k = id
      · subst hk
        simp
      · rw [Finset.mem_insert, or_iff_right hk]
        exact hother hk
    · cases ht.symm.trans hc
  · refine ⟨ids, ?_, by simp [hc, hcard]⟩
    intro k
    by_cases hk : k = id
    · subst hk
      rw [Function.update_self, hids]
      rcases advance_cases ha with ⟨lifecycle, kind', hp, ht, rfl⟩ |
        ⟨-, rfl | ⟨⟨lifecycle, rfl⟩, hne⟩⟩
      · have hkind : kind' ≠ kind := fun heq => hc (heq ▸ ht)
        simp [hp, hkind]
      · rfl
      · simp [hne kind]
    · exact hother hk

/-- A stream as its trust pins it: one journal and epoch, numbered and linked from the
trusted predecessor, each event once. -/
structure Chained (sha256 : Hasher) (trust : StreamTrust) (ds : List DecodedRecord) :
    Prop where
  journal : ∀ d ∈ ds, d.journalId = trust.expectedJournalId
  epoch : ∀ d ∈ ds, d.record.epoch = trust.expectedEpoch
  sequence : ∀ i d, ds[i]? = some d →
    d.record.sequence.toNat = trust.expectedFirstSequence.toNat + i
  linked : HashChain.Linked (fun d => d.record.previousHash) (fun d => hashRecord sha256 d.bytes)
    trust.expectedPredecessorHash ds
  distinct : (ds.map fun d => d.record.eventId).Nodup

structure WithinLimits (trust : StreamTrust) (ds : List DecodedRecord) : Prop where
  records : ds.length ≤ trust.maxRecords.toNat
  opened : ∀ seen, seen <+: ds.map DecodedRecord.record →
    (openRequests seen).card ≤ maxOpenRequests
  sequence : trust.expectedFirstSequence.toNat + ds.length < 2 ^ 64

structure Accepted (sha256 : Hasher) (trust : StreamTrust) (ds : List DecodedRecord) :
    Prop where
  chained : Chained sha256 trust ds
  lifecycles : ∀ id, (phaseOf id (ds.map DecodedRecord.record)).isSome = true
  limits : WithinLimits trust ds

structure Takes (sha256 : Hasher) (trust : StreamTrust) (ds : List DecodedRecord)
    (d : DecodedRecord) : Prop where
  room : ds.length < trust.maxRecords.toNat
  journal : d.journalId = trust.expectedJournalId
  epoch : d.record.epoch = trust.expectedEpoch
  sequence : d.record.sequence.toNat = trust.expectedFirstSequence.toNat + ds.length
  event : d.record.eventId ∉ ds.map fun d => d.record.eventId
  link : d.record.previousHash = HashChain.tip (fun d => hashRecord sha256 d.bytes)
    trust.expectedPredecessorHash ds
  lifecycle : ((phases (ds.map DecodedRecord.record) d.record.requestId).advance
    d.record).isSome = true
  opened : (openRequests ((ds ++ [d]).map DecodedRecord.record)).card ≤ maxOpenRequests
  next : trust.expectedFirstSequence.toNat + ds.length + 1 < 2 ^ 64

section Extend
variable {sha256 : Hasher} {trust : StreamTrust} {ds : List DecodedRecord}
  {d : DecodedRecord}

theorem chained_append : Chained sha256 trust (ds ++ [d]) ↔ Chained sha256 trust ds ∧
    d.journalId = trust.expectedJournalId ∧ d.record.epoch = trust.expectedEpoch ∧
    d.record.sequence.toNat = trust.expectedFirstSequence.toNat + ds.length ∧
    d.record.eventId ∉ ds.map (fun d => d.record.eventId) ∧
    d.record.previousHash = HashChain.tip (fun d => hashRecord sha256 d.bytes)
      trust.expectedPredecessorHash ds := by
  constructor
  · intro h
    have hlinked := (HashChain.linked_append _ _ _ _ _).mp h.linked
    have hnodup := h.distinct
    rw [List.map_append, List.nodup_append] at hnodup
    refine ⟨⟨fun x hx => h.journal x (List.mem_append_left _ hx),
      fun x hx => h.epoch x (List.mem_append_left _ hx), ?_, hlinked.1, hnodup.1⟩,
      h.journal d (by simp), h.epoch d (by simp), h.sequence _ d (by simp), ?_, hlinked.2.1⟩
    · intro i x hx
      obtain ⟨hi, -⟩ := List.getElem?_eq_some_iff.mp hx
      exact h.sequence i x (by rw [List.getElem?_append_left hi, hx])
    · exact fun hmem => hnodup.2.2 _ hmem _ (by simp) rfl
  · rintro ⟨h, hj, he, hs, hev, hl⟩
    refine ⟨?_, ?_, ?_, h.linked.append_singleton _ _ hl, ?_⟩
    · intro x hx
      rcases List.mem_append.mp hx with hx | hx
      · exact h.journal x hx
      · rw [List.mem_singleton.mp hx, hj]
    · intro x hx
      rcases List.mem_append.mp hx with hx | hx
      · exact h.epoch x hx
      · rw [List.mem_singleton.mp hx, he]
    · intro i x hx
      rcases Nat.lt_trichotomy i ds.length with hi | rfl | hi
      · rw [List.getElem?_append_left hi] at hx
        exact h.sequence i x hx
      · simp only [List.getElem?_append_right (Nat.le_refl _), Nat.sub_self,
          List.getElem?_cons_zero, Option.some.injEq] at hx
        rw [← hx, hs]
      · rw [List.getElem?_eq_none (by simp; omega)] at hx
        cases hx
    · rw [List.map_append, List.nodup_append]
      refine ⟨h.distinct, by simp, ?_⟩
      intro a ha b hb hab
      simp only [List.map_cons, List.map_nil, List.mem_singleton] at hb
      exact hev (hb ▸ hab ▸ ha)

theorem withinLimits_append : WithinLimits trust (ds ++ [d]) ↔ WithinLimits trust ds ∧
    ds.length < trust.maxRecords.toNat ∧
    (openRequests ((ds ++ [d]).map DecodedRecord.record)).card ≤ maxOpenRequests ∧
    trust.expectedFirstSequence.toNat + ds.length + 1 < 2 ^ 64 := by
  constructor
  · intro h
    have hrecords := h.records
    have hsequence := h.sequence
    simp only [List.length_append, List.length_singleton] at hrecords hsequence
    refine ⟨⟨by omega, ?_, by omega⟩, by omega, h.opened _ List.prefix_rfl, by omega⟩
    intro seen hseen
    refine h.opened seen (hseen.trans ?_)
    rw [List.map_append]
    exact List.prefix_append _ _
  · rintro ⟨h, hroom, hopen, hnext⟩
    refine ⟨by simp; omega, ?_, by simp; omega⟩
    intro seen hseen
    rw [List.map_append, List.map_singleton, List.prefix_concat_iff] at hseen
    rcases hseen with rfl | hseen
    · simpa using hopen
    · exact h.opened seen hseen

variable {rs : List ParsedRecord}

theorem phases_append {r : ParsedRecord} {p : Phase}
    (h : (phaseOf r.requestId rs).isSome = true) (ha : (phases rs r.requestId).advance r = some p) :
    phases (rs ++ [r]) = Function.update (phases rs) r.requestId p := by
  obtain ⟨q, hq⟩ := Option.isSome_iff_exists.mp h
  rw [phases, hq, Option.getD_some] at ha
  funext id
  by_cases hid : id = r.requestId
  · subst hid
    rw [Function.update_self, phases, phaseOf_append_self, hq, Option.bind_some, ha,
      Option.getD_some]
  · rw [Function.update_of_ne hid, phases, phases, phaseOf_append_of_ne _ (Ne.symm hid)]

theorem lifecycles_append {r : ParsedRecord} :
    (∀ id, (phaseOf id (rs ++ [r])).isSome = true) ↔
      (∀ id, (phaseOf id rs).isSome = true) ∧
        ((phases rs r.requestId).advance r).isSome = true := by
  constructor
  · intro h
    have hself := h r.requestId
    rw [phaseOf_append_self] at hself
    cases hq : phaseOf r.requestId rs with
    | none => simp [hq] at hself
    | some q =>
      rw [hq, Option.bind_some] at hself
      refine ⟨?_, by rw [phases, hq, Option.getD_some]; exact hself⟩
      intro id
      by_cases hid : id = r.requestId
      · rw [hid, hq]
        rfl
      · have hother := h id
        rwa [phaseOf_append_of_ne _ (Ne.symm hid)] at hother
  · rintro ⟨h, ha⟩ id
    by_cases hid : id = r.requestId
    · obtain ⟨q, hq⟩ := Option.isSome_iff_exists.mp (h r.requestId)
      rw [phases, hq, Option.getD_some] at ha
      rw [hid, phaseOf_append_self, hq, Option.bind_some]
      exact ha
    · rw [phaseOf_append_of_ne _ (Ne.symm hid)]
      exact h id

theorem tallied_countP (h : ∀ id, (phaseOf id rs).isSome = true) :
    Tallied (fun kind => rs.countP fun r => terminalOf r = some kind) (phases rs) := by
  induction rs using List.reverseRecOn with
  | nil => exact fun kind => ⟨∅, by simp [phases, phaseOf, ofRequest, runPhase], by simp⟩
  | append_singleton rs r ih =>
    obtain ⟨hrs, hadv⟩ := lifecycles_append.mp h
    obtain ⟨p, hp⟩ := Option.isSome_iff_exists.mp hadv
    have ht := (ih hrs).advance hp
    rw [phases_append (hrs _) hp]
    simpa [List.countP_append, List.countP_singleton] using ht

theorem accepted_append : Accepted sha256 trust (ds ++ [d]) ↔
    Accepted sha256 trust ds ∧ Takes sha256 trust ds d := by
  constructor
  · rintro ⟨hc, hl, hlim⟩
    obtain ⟨hc, hj, he, hs, hev, hlink⟩ := chained_append.mp hc
    obtain ⟨hlim, hroom, hopen, hnext⟩ := withinLimits_append.mp hlim
    rw [List.map_append, List.map_singleton, lifecycles_append] at hl
    exact ⟨⟨hc, hl.1, hlim⟩, ⟨hroom, hj, he, hs, hev, hlink, hl.2, hopen, hnext⟩⟩
  · rintro ⟨⟨hc, hl, hlim⟩, ht⟩
    refine ⟨chained_append.mpr ⟨hc, ht.journal, ht.epoch, ht.sequence, ht.event, ht.link⟩, ?_,
      withinLimits_append.mpr ⟨hlim, ht.room, ht.opened, ht.next⟩⟩
    rw [List.map_append, List.map_singleton, lifecycles_append]
    exact ⟨hl, ht.lifecycle⟩

end Extend

end Ferrocrate.Witness

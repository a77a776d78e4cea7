import Ferrocrate.Witness.CheckpointCodec
import Ferrocrate.Witness.CheckpointEvidence

/-! Where the binding record of a checkpoint stands. As long as nobody appends between the
capture of a head and its binding, the record comes right after the head, also when a restart
and a reconciliation come in between. -/
namespace Ferrocrate.Witness
open Lib Lib.Program Coordinator

instance (sha256 : Hasher) (cp : Checkpoint) (r : ParsedRecord) :
    Decidable (Binds sha256 cp r) :=
  decidable_of_iff (_ ∧ _ ∧ _ ∧ _ ∧ _ ∧ _)
    ⟨fun h => ⟨h.1, h.2.1, h.2.2.1, h.2.2.2.1, h.2.2.2.2.1, h.2.2.2.2.2⟩,
      fun h => ⟨h.1, h.2, h.3, h.4, h.5, h.6⟩⟩

def placed (sha256 : Hasher) (cp : Checkpoint) (j : WitnessJournal) : Bool :=
  match Journal.records j with
  | .error _ => false
  | .ok stored => stored.any fun bytes =>
    match decodeRecord bytes with
    | .error _ => false
    | .ok d => Binds sha256 cp d.record

def livePending (sha256 : Hasher) (sidecar : Option Bytes) : Option PendingBinding :=
  match sidecar with
  | none => none
  | some bytes =>
    match decodePending sha256 bytes with
    | .error _ => none
    | .ok p => if p.state = .bindingFailed then none else some p

def outstanding (sha256 : Hasher) (s : System) : Bool :=
  (livePending sha256 s.sidecar).any fun p => !s.journal.store.events.contains p.eventId

section Ledger
variable {sha256 : Hasher} {config : JournalConfig} {l : Ledger} {j : WitnessJournal}

theorem Refines.placed_iff (h : Refines sha256 config l j) (cp : Checkpoint) :
    placed sha256 cp j = true ↔ ∃ r ∈ l.entries, Binds sha256 cp r := by
  have hvalid := h.represents.wellFormed.valid
  simp only [placed, h.records_eq, List.any_map, List.any_eq_true, Function.comp_apply]
  constructor
  · rintro ⟨r, hr, hb⟩
    rw [decodeRecord_recordLayout (hvalid r hr)] at hb
    exact ⟨r, hr, of_decide_eq_true hb⟩
  · rintro ⟨r, hr, hb⟩
    refine ⟨r, hr, ?_⟩
    rw [decodeRecord_recordLayout (hvalid r hr)]
    exact decide_eq_true hb

theorem checkedAdd_ofNat {n : Nat} (h : n + 1 < 2 ^ 64) :
    checkedAdd (UInt64.ofNat n) 1 = some (UInt64.ofNat (n + 1)) := by
  have hn : (UInt64.ofNat n).toNat = n := by
    rw [UInt64.toNat_ofNat']
    exact Nat.mod_eq_of_lt (by omega)
  rw [checkedAdd, hn, if_pos h, ← UInt64.ofNat_add]

theorem Journal.Published.binds {record : WitnessRecord} {cp : Checkpoint}
    (h : Journal.Published sha256 config l
      { record with resultDigest := some (sha256 cp.encode) } j)
    (hhead : (UInt64.ofNat l.entries.length, l.tip sha256 config.journalId)
      = (cp.head.sequence, cp.head.hash))
    (hepoch : record.epoch = cp.head.epoch) (haction : record.action = .checkpointPublish) :
    Binds sha256 cp (l.stamp sha256 config.journalId l.epoch
      { record with resultDigest := some (sha256 cp.encode) }) := by
  obtain ⟨hseq, hhash⟩ := Prod.mk.inj hhead
  have hlen := h.refines.length_le
  simp only [Ledger.entries_extend, List.length_append, List.length_singleton,
    Ledger.capacity] at hlen
  refine ⟨?_, h.stage, haction, rfl, hhash, h.epoch.symm.trans hepoch⟩
  rw [← hseq]
  exact checkedAdd_ofNat (by omega)

end Ledger

structure Standing (sha256 : Hasher) (config : JournalConfig) (l : Ledger) (s : System) :
    Prop where
  refines : Refines sha256 config l s.journal
  unbound : ∀ p, livePending sha256 s.sidecar = some p → l.Fresh p.eventId →
    s.journal.head = (p.checkpoint.head.sequence, p.checkpoint.head.hash)
  bound : ∀ p, livePending sha256 s.sidecar = some p → ¬l.Fresh p.eventId →
    ∃ r ∈ l.entries, Binds sha256 p.checkpoint r

structure Others (sha256 : Hasher) (config : JournalConfig) (label : Moment)
    (s t : System) : Prop where
  sidecar : t.sidecar = s.sidecar
  artifact : t.artifact = s.artifact
  journal : ∀ l, Refines sha256 config l s.journal → ∃ l', Refines sha256 config l' t.journal ∧
    l.entries <+: l'.entries ∧
    ((∃ head eventId, label = .persistPrepared head eventId) ∨ outstanding sha256 s = true →
      l'.entries = l.entries)

section Protocol
variable {sha256 : Hasher} {config : JournalConfig} {l : Ledger} {s t : System}

theorem Ledger.Fresh.of_prefix {l l' : Ledger} {e : Id} (h : l'.Fresh e)
    (hp : l.entries <+: l'.entries) : l.Fresh e := by
  obtain ⟨new, hnew⟩ := hp
  rw [Ledger.Fresh, ← hnew, List.map_append, List.mem_append, not_or] at h
  exact h.1

theorem Refines.head_eq_of_entries {l' : Ledger} {j j' : WitnessJournal}
    (h : Refines sha256 config l j) (h' : Refines sha256 config l' j')
    (he : l'.entries = l.entries) : j'.head = j.head := by
  rw [h.head_eq, h'.head_eq, Ledger.tip, Ledger.tip, he]

theorem Refines.outstanding_iff (h : Refines sha256 config l s.journal) :
    outstanding sha256 s = true ↔
      ∃ p, livePending sha256 s.sidecar = some p ∧ l.Fresh p.eventId := by
  have hfresh : ∀ e, s.journal.store.events.contains e = false ↔ l.Fresh e := by
    intro e
    rw [Bool.eq_false_iff, ne_eq, h.represents.contains_event, not_not]
  rw [outstanding]
  cases livePending sha256 s.sidecar with
  | none => simp
  | some p => simp [hfresh]

variable {label : Moment}

theorem Others.trans {u : System} (h : Others sha256 config label s t)
    (h' : Others sha256 config label t u) : Others sha256 config label s u := by
  refine ⟨h'.sidecar.trans h.sidecar, h'.artifact.trans h.artifact, ?_⟩
  intro l hl
  obtain ⟨m, hm, hprefix, hkept⟩ := h.journal l hl
  obtain ⟨n, hn, hprefix', hkept'⟩ := h'.journal m hm
  refine ⟨n, hn, hprefix.trans hprefix', fun hguard => ?_⟩
  have hsame := hkept hguard
  refine (hkept' (hguard.imp_right fun hout => ?_)).trans hsame
  obtain ⟨p, hp, hfresh⟩ := hl.outstanding_iff.mp hout
  refine hm.outstanding_iff.mpr ⟨p, by rw [h.sidecar]; exact hp, ?_⟩
  rw [Ledger.Fresh, hsame]
  exact hfresh

theorem Others.refl (sha256 : Hasher) (config : JournalConfig) (label : Moment)
    (s : System) : Others sha256 config label s s :=
  ⟨rfl, rfl, fun l hl => ⟨l, hl, List.prefix_rfl, fun _ => rfl⟩⟩

theorem Standing.others (h : Standing sha256 config l s)
    (ht : Others sha256 config label s t) :
    ∃ l', Standing sha256 config l' t ∧ l.entries <+: l'.entries ∧
      ((∃ head eventId, label = .persistPrepared head eventId) → l'.entries = l.entries) := by
  obtain ⟨l', hl', hprefix, hkept⟩ := ht.journal l h.refines
  refine ⟨l', ⟨hl', ?_, ?_⟩, hprefix, fun hlabel => hkept (.inl hlabel)⟩
  · intro p hp hfresh
    rw [ht.sidecar] at hp
    have hold := hfresh.of_prefix hprefix
    have hsame := hkept (.inr (h.refines.outstanding_iff.mpr ⟨p, hp, hold⟩))
    rw [h.refines.head_eq_of_entries hl' hsame]
    exact h.unbound p hp hold
  · intro p hp hbound
    rw [ht.sidecar] at hp
    by_cases hold : l.Fresh p.eventId
    · have hsame := hkept (.inr (h.refines.outstanding_iff.mpr ⟨p, hp, hold⟩))
      rw [Ledger.Fresh, hsame] at hbound
      exact absurd hold hbound
    · obtain ⟨r, hr, hb⟩ := h.bound p hp hold
      exact ⟨r, hprefix.subset hr, hb⟩

def bindingProtocol (sha256 : Hasher) (config : JournalConfig) :
    Lib.Protocol System Moment where
  inv s := ∃ l, Standing sha256 config l s
  rely := Others sha256 config
  grant label s := ∀ head eventId, label = .persistPrepared head eventId →
    s.journal.store.events.contains eventId = false
  trans := Others.trans
  stable := by
    rintro label s t ⟨l, hl⟩ ht
    obtain ⟨l', hl', -⟩ := hl.others ht
    exact ⟨l', hl'⟩

theorem placed_others {cp : Checkpoint} (h : Standing sha256 config l s)
    (ht : Others sha256 config label s t) (hp : placed sha256 cp s.journal = true) :
    placed sha256 cp t.journal = true := by
  obtain ⟨l', hl', hprefix, -⟩ := ht.journal l h.refines
  obtain ⟨r, hr, hb⟩ := (h.refines.placed_iff cp).mp hp
  exact (hl'.placed_iff cp).mpr ⟨r, hprefix.subset hr, hb⟩

end Protocol

/-! The actions of a call, under the protocol. -/

section Actions
variable {sha256 : Hasher} {config : JournalConfig} {l : Ledger} {s : System}
  {p : PendingBinding} {record : WitnessRecord}

theorem livePending_encode (sha256 : Hasher) (h : p.WellFormed record) :
    livePending sha256 (some (encodePending sha256 p))
      = if p.state = .bindingFailed then none else some p := by
  rw [livePending, decodePending_encodePending sha256 h]

theorem Standing.replace {q : PendingBinding} (h : Standing sha256 config l s)
    (hq : livePending sha256 s.sidecar = some q) (hp : p.WellFormed record)
    (hcp : p.checkpoint = q.checkpoint) (hevent : p.eventId = q.eventId) :
    Standing sha256 config l { s with sidecar := some (encodePending sha256 p) } := by
  have hlive : ∀ r, livePending sha256 (some (encodePending sha256 p)) = some r → r = p := by
    intro r hr
    rw [livePending_encode sha256 hp] at hr
    split at hr
    · cases hr
    · exact (Option.some.inj hr).symm
  refine ⟨h.refines, ?_, ?_⟩
  · intro r hr hfresh
    obtain rfl := hlive r hr
    rw [hcp]
    exact h.unbound q hq (hevent ▸ hfresh)
  · intro r hr hbound
    obtain rfl := hlive r hr
    rw [hcp]
    exact h.bound q hq (hevent ▸ hbound)

theorem Standing.clear (h : Standing sha256 config l s) :
    Standing sha256 config l { s with sidecar := none } :=
  ⟨h.refines, fun _ hp => (nomatch hp), fun _ hp => (nomatch hp)⟩

theorem appendBinding_standing {prepared : WitnessRecord} (h : Standing sha256 config l s)
    (hp : livePending sha256 s.sidecar = some p) (hevent : prepared.eventId = p.eventId)
    (hepoch : prepared.epoch = p.checkpoint.head.epoch) :
    wp (Journal.appendCheckpointPublication sha256 (sha256 p.checkpoint.encode) prepared)
      (fun _ j => (∃ l', Standing sha256 config l' { s with journal := j }) ∧
        placed sha256 p.checkpoint j = true)
      (fun _ j => ∃ l', Standing sha256 config l' { s with journal := j }) s.journal := by
  have hkept : ∀ j, Refines sha256 config l j → Standing sha256 config l { s with journal := j } :=
    fun j hj => ⟨hj, fun q hq hfresh => by
      rw [show ({ s with journal := j } : System).journal.head = s.journal.head from
        h.refines.head_eq_of_entries hj rfl]
      exact h.unbound q hq hfresh, fun q hq hbound => h.bound q hq hbound⟩
  have hnew : ∀ j, Journal.Published sha256 config l
      { prepared with resultDigest := some (sha256 p.checkpoint.encode) } j →
      prepared.action = .checkpointPublish →
      ∃ l', Standing sha256 config l' { s with journal := j } ∧
        ∃ r ∈ l'.entries, Binds sha256 p.checkpoint r := by
    intro j hj haction
    have hhead := h.unbound p hp (hevent ▸ hj.fresh)
    rw [h.refines.head_eq] at hhead
    have hbinds := hj.binds hhead hepoch haction
    refine ⟨_, ⟨hj.refines, ?_, ?_⟩, _, List.mem_append_right _ (List.mem_singleton.mpr rfl), hbinds⟩
    · intro q hq hfresh
      obtain rfl := Option.some.inj (hq.symm.trans hp)
      refine absurd ?_ hfresh
      simp [Ledger.entries_extend, hevent]
    · intro q hq _
      obtain rfl := Option.some.inj (hq.symm.trans hp)
      exact ⟨_, List.mem_append_right _ (List.mem_singleton.mpr rfl), hbinds⟩
  refine wp_mono (Journal.appendCheckpointPublication_published _ prepared h.refines) ?_ ?_
  · rintro _ j ⟨haction, ⟨hj, hknown⟩ | hj⟩
    · exact ⟨⟨l, hkept j hj⟩, (hj.placed_iff _).mpr (h.bound p hp (hevent ▸ hknown))⟩
    · obtain ⟨l', hl', hb⟩ := hnew j hj haction
      exact ⟨⟨l', hl'⟩, (hl'.refines.placed_iff _).mpr hb⟩
  · rintro _ j (hj | ⟨haction, hj⟩)
    · exact ⟨l, hkept j hj⟩
    · obtain ⟨l', hl', -⟩ := hnew j hj haction
      exact ⟨l', hl'⟩

end Actions

section Tasks
variable {sha256 : Hasher} {config : JournalConfig} {s : System}

open Lib.Protocol

variable {α : Type}

theorem wp_onJournal (m : Journaled α) (Q : Except JournalError α → System → Prop)
    (E : CheckpointError → System → Prop) (s : System) :
    wp (onJournal m) Q E s ↔ wp m (fun a j => Q (.ok a) { s with journal := j })
      (fun e j => Q (.error e) { s with journal := j }) s.journal := by
  simp only [wp, onJournal]
  cases m s.journal with
  | mk r j => cases r <;> rfl

theorem wp_tryJournal (m : Journaled α) (Q : α → System → Prop)
    (E : CheckpointError → System → Prop) (s : System) :
    wp (tryJournal m) Q E s ↔ wp m (fun a j => Q a { s with journal := j })
      (fun e j => E (.journal e) { s with journal := j }) s.journal := by
  rw [tryJournal, wp_bind, wp_onJournal]
  simp [wp_ofExcept]

structure Carries (sha256 : Hasher) (cp : Checkpoint) (pending : PendingBinding)
    (sidecar : Option Bytes) : Prop where
  live : livePending sha256 sidecar = some pending
  checkpoint : pending.checkpoint = cp
  wellFormed : ∃ record, pending.WellFormed record

variable {cp : Checkpoint} {label : Moment}

theorem persistPendingReplace_ensures
    {pending next : PendingBinding} {Q : System → Prop}
    (hinv : (bindingProtocol sha256 config).inv s) (hc : Carries sha256 cp pending s.sidecar)
    (hcp : next.checkpoint = pending.checkpoint) (hevent : next.eventId = pending.eventId)
    (hw : ∃ record, next.WellFormed record)
    (hq : ∀ l t, Standing sha256 config l t → Others sha256 config label s t →
      Q { t with sidecar := some (encodePending sha256 next) }) :
    (bindingProtocol sha256 config).Ensures
      (Task.atomically label (persistPendingReplace sha256 next)) (fun _ => Q) (fun _ _ => True) s := by
  rw [ensures_atomically]
  refine ⟨hinv, fun t ht _ => ?_⟩
  obtain ⟨l, hl⟩ := (bindingProtocol sha256 config).stable hinv ht
  obtain ⟨record, hw⟩ := hw
  rw [persistPendingReplace, wp_modify]
  refine ⟨⟨l, hl.replace (q := pending) ?_ hw hcp hevent⟩, hq l t hl ht⟩
  rw [ht.sidecar]
  exact hc.live

theorem clearPending_ensures {Q : System → Prop} (hinv : (bindingProtocol sha256 config).inv s)
    (hq : ∀ l t, Standing sha256 config l t → Others sha256 config .clear s t →
      Q { t with sidecar := none }) :
    (bindingProtocol sha256 config).Ensures (Task.atomically .clear clearPending) (fun _ => Q)
      (fun _ _ => True) s := by
  rw [ensures_atomically]
  refine ⟨hinv, fun t ht _ => ?_⟩
  obtain ⟨l, hl⟩ := (bindingProtocol sha256 config).stable hinv ht
  exact ⟨⟨l, hl.clear⟩, hq l t hl ht⟩

variable {pending : PendingBinding}

theorem settleBound_ensures
    (hinv : (bindingProtocol sha256 config).inv s) (hc : Carries sha256 cp pending s.sidecar)
    (hplaced : placed sha256 cp s.journal = true) :
    (bindingProtocol sha256 config).Ensures (settleBound sha256 pending)
      (fun _ t => placed sha256 cp t.journal = true) (fun _ _ => True) s := by
  obtain ⟨record, hw⟩ := hc.wellFormed
  obtain ⟨l, hl⟩ := hinv
  rw [settleBound, ensures_bind]
  refine persistPendingReplace_ensures ⟨l, hl⟩ hc rfl rfl ⟨record, { hw with }⟩ ?_
  intro l' t hl' ht
  refine clearPending_ensures ⟨l', hl'.replace (q := pending) ?_ { hw with } rfl rfl⟩ ?_
  · rw [ht.sidecar]
    exact hc.live
  · intro l'' u hl'' hu
    have ht' : placed sha256 cp t.journal = true := placed_others hl ht hplaced
    obtain ⟨m, hm, hprefix, -⟩ := hu.journal l' hl'.refines
    obtain ⟨r, hr, hb⟩ := (hl'.refines.placed_iff cp).mp ht'
    exact (hm.placed_iff cp).mpr ⟨r, hprefix.subset hr, hb⟩

theorem persistFailed_ensures {e : CheckpointError} {Q : α → System → Prop} (c : Prop) [Decidable c]
    (hinv : (bindingProtocol sha256 config).inv s) (hc : Carries sha256 cp pending s.sidecar) :
    (bindingProtocol sha256 config).Ensures (do
      Task.runIf c (Task.atomically .persistOutcome (persistFailed sha256 pending))
      throw e) Q (fun _ _ => True) s := by
  obtain ⟨record, hw⟩ := hc.wellFormed
  rw [ensures_bind, Task.runIf, ensures_ite]
  refine ⟨fun _ => ?_, fun _ => ⟨hinv, hinv, trivial⟩⟩
  refine persistPendingReplace_ensures hinv hc rfl rfl ⟨record, { hw with }⟩ ?_
  intro l t hl ht
  refine ⟨⟨l, hl.replace (q := pending) ?_ { hw with } rfl rfl⟩, trivial⟩
  rw [ht.sidecar]
  exact hc.live

theorem bindPublished_ensures {prepared : WitnessRecord} (hinv : (bindingProtocol sha256 config).inv s)
    (hc : Carries sha256 cp pending s.sidecar) (hevent : prepared.eventId = pending.eventId)
    (hepoch : prepared.epoch = cp.head.epoch) :
    (bindingProtocol sha256 config).Ensures (bindPublished sha256 cp prepared pending)
      (fun outcome t => ∀ c, outcome = .bound c → placed sha256 c t.journal = true)
      (fun _ _ => True) s := by
  obtain ⟨record, hw⟩ := hc.wellFormed
  obtain rfl := hc.checkpoint
  rw [bindPublished, ensures_bind, ensures_atomically]
  refine ⟨hinv, fun t ht _ => ?_⟩
  obtain ⟨l, hl⟩ := (bindingProtocol sha256 config).stable hinv ht
  have hc' : Carries sha256 pending.checkpoint pending t.sidecar := by
    rw [ht.sidecar]
    exact hc
  rw [wp_onJournal]
  refine wp_mono (appendBinding_standing hl hc'.live hevent hepoch) ?_ ?_
  · rintro _ j ⟨hinv', hplaced⟩
    refine ⟨hinv', ?_⟩
    simp only [ensures_bind, ensures_pure]
    refine (settleBound_ensures hinv' hc' hplaced).mono (fun _ u hu hb => ⟨hu, ?_⟩) (fun _ _ _ h => h)
    intro c hcp
    obtain rfl := PublicationOutcome.bound.inj hcp
    exact hb
  · rintro e j hinv'
    refine ⟨hinv', ?_⟩
    split
    · rename_i hok
      cases hok
    · simp only [ensures_bind]
      refine persistPendingReplace_ensures hinv' hc' rfl rfl ⟨record, { hw with }⟩ ?_
      intro l' u hl' hu
      refine ⟨⟨l', hl'.replace (q := pending) ?_ { hw with } rfl rfl⟩, fun c hcp => nomatch hcp⟩
      rw [hu.sidecar]
      exact hc'.live
    · exact persistFailed_ensures _ hinv' hc'

theorem read_ensures {m : Stored α} {Q : α → System → Prop}
    (hinv : (bindingProtocol sha256 config).inv s)
    (hm : ∀ t, Others sha256 config label s t →
      wp m (fun a u => u = t ∧ Q a t) (fun _ u => u = t) t) :
    (bindingProtocol sha256 config).Ensures (Task.atomically label m) Q (fun _ _ => True) s := by
  rw [ensures_atomically]
  refine ⟨hinv, fun t ht _ => ?_⟩
  have hinv' := (bindingProtocol sha256 config).stable hinv ht
  refine wp_mono (hm t ht) ?_ ?_
  · rintro a u ⟨rfl, hq⟩
    exact ⟨hinv', hq⟩
  · rintro e u rfl
    exact ⟨hinv', trivial⟩

theorem flushedHead_ensures (hinv : (bindingProtocol sha256 config).inv s) :
    (bindingProtocol sha256 config).Ensures
      (Task.atomically label (tryJournal Journal.flushedHead))
      (fun head t => (head.sequence, head.hash) = t.journal.head) (fun _ _ => True) s := by
  refine read_ensures hinv fun t _ => ?_
  rw [wp_tryJournal]
  exact ⟨rfl, rfl⟩

theorem capture_ensures (hinv : (bindingProtocol sha256 config).inv s) :
    (bindingProtocol sha256 config).Ensures (capture sha256)
      (fun head t => (head.sequence, head.hash) = t.journal.head) (fun _ _ => True) s := by
  rw [capture, ensures_bind]
  refine (read_ensures (Q := fun _ _ => True) hinv fun t _ => ?_).mono ?_ (fun _ _ _ h => h)
  · simp only [preflight, wp_bind, wp_get, wp_ofExcept, wp_rejectIf]
    exact ⟨fun _ _ => ⟨fun _ => trivial, fun _ => ⟨trivial, trivial⟩⟩, fun _ _ => trivial⟩
  intro _ t hinv _
  rw [ensures_bind]
  refine (read_ensures (Q := fun _ _ => True) hinv fun u _ => ?_).mono ?_ (fun _ _ _ h => h)
  · rw [wp_tryJournal]
    simp only [checkpointPreflight, wp_bind, wp_get, wp_rejectIf]
    exact ⟨fun _ => trivial, fun _ => ⟨trivial, trivial⟩⟩
  exact fun _ u hinv _ => flushedHead_ensures hinv

theorem prepareBinding_eq_ok {record prepared : WitnessRecord} {d : Digest}
    (h : prepareBinding sha256 cp record d = .ok prepared) :
    checkedAdd cp.head.sequence 1 = some prepared.sequence ∧ prepared.epoch = cp.head.epoch ∧
      prepared.eventId = (bindingIdentity sha256 d).first 16 FixedBytes.sixteen_le ∧
      prepared = { record with
        eventId := (bindingIdentity sha256 d).first 16 FixedBytes.sixteen_le
        requestId := (bindingIdentity sha256 d).after 16
        epoch := cp.head.epoch
        sequence := prepared.sequence
        previousHash := cp.head.hash } := by
  rw [prepareBinding] at h
  split at h
  · cases h
  · rename_i sequence hsequence
    obtain rfl := Except.ok.inj h
    exact ⟨hsequence, rfl, rfl, rfl⟩

variable {record : WitnessRecord}

theorem publishPrepared_ensures
    (hinv : (bindingProtocol sha256 config).inv s) (hcp : cp.WellFormed)
    (hhead : (cp.head.sequence, cp.head.hash) = s.journal.head) :
    (bindingProtocol sha256 config).Ensures (publishPrepared sha256 cp record)
      (fun r t => Carries sha256 cp r.2 t.sidecar ∧ r.1.eventId = r.2.eventId ∧
        r.1.epoch = cp.head.epoch) (fun _ _ => True) s := by
  rw [publishPrepared, ensures_bind, ensures_ofExcept]
  refine ⟨hinv, fun prepared hprepared => ?_, fun _ _ => trivial⟩
  rw [ensures_bind, ensures_ofExcept]
  refine ⟨hinv, fun pending hpending => ?_, fun _ _ => trivial⟩
  have hw := PendingBinding.wellFormed_new hpending hcp
  obtain ⟨hcheckpoint, hevent, hstate⟩ : pending.checkpoint = cp ∧
      pending.eventId = prepared.eventId ∧ pending.state = .prepared := by
    obtain ⟨-, rfl⟩ := PendingBinding.new_eq_ok.mp hpending
    exact ⟨rfl, rfl, rfl⟩
  obtain ⟨-, hepoch, -, -⟩ := prepareBinding_eq_ok hprepared
  have hlive : livePending sha256 (some (encodePending sha256 pending)) = some pending := by
    rw [livePending_encode sha256 hw, hstate]
    rfl
  rw [ensures_bind, ensures_atomically]
  refine ⟨hinv, fun t ht hgrant => ?_⟩
  obtain ⟨l, hl⟩ := hinv
  obtain ⟨l', hl', -, hkept⟩ := hl.others ht
  rw [← hl.refines.head_eq_of_entries hl'.refines (hkept ⟨_, _, rfl⟩)] at hhead
  have hfresh : l'.Fresh pending.eventId :=
    hl'.refines.fresh (by rw [hgrant _ _ rfl]; decide)
  simp only [persistPending, wp_bind, wp_get, wp_rejectIf, wp_set]
  refine ⟨fun _ => ⟨⟨l', hl'⟩, trivial⟩, fun _ => ?_⟩
  -- the sidecar is written over a free path, for an event that is not on record
  have hstands : ∃ l, Standing sha256 config l
      { t with sidecar := some (encodePending sha256 pending) } := by
    refine ⟨l', hl'.refines, ?_, ?_⟩
    · intro q hq _
      obtain rfl := Option.some.inj (hq.symm.trans hlive)
      rw [hcheckpoint]
      exact hhead.symm
    · intro q hq hbound
      obtain rfl := Option.some.inj (hq.symm.trans hlive)
      exact absurd hfresh hbound
  refine ⟨hstands, ?_⟩
  rw [ensures_bind, ensures_atomically]
  refine ⟨hstands, fun u hu _ => ?_⟩
  obtain ⟨m, hm⟩ := (bindingProtocol sha256 config).stable hstands hu
  simp only [publish, wp_bind, wp_rejectIf, wp_modify]
  refine ⟨fun _ => ⟨⟨m, hm⟩, trivial⟩, fun _ => ⟨⟨m, hm.refines, hm.unbound, hm.bound⟩, ?_⟩⟩
  have hu' : livePending sha256 u.sidecar = some pending := by
    rw [show u.sidecar = _ from hu.sidecar]
    exact hlive
  have hpublished : Carries sha256 cp { pending with state := .published }
      (some (encodePending sha256 { pending with state := .published })) := by
    refine ⟨?_, hcheckpoint, _, { hw with }⟩
    exact livePending_encode sha256 (p := { pending with state := .published }) { hw with }
  simp only [ensures_bind]
  refine persistPendingReplace_ensures ⟨m, hm.refines, hm.unbound, hm.bound⟩
    ⟨hu', hcheckpoint, _, hw⟩ rfl rfl ⟨_, { hw with }⟩ ?_
  intro n v hn hv
  refine ⟨⟨n, hn.replace (q := pending) ?_ { hw with } rfl rfl⟩, hpublished, hevent.symm, hepoch⟩
  rw [hv.sidecar]
  exact hu'

theorem advanceEpoch_ensures
    (expected : UInt64) (hinv : (bindingProtocol sha256 config).inv s)
    (hc : Carries sha256 cp pending s.sidecar) :
    (bindingProtocol sha256 config).Ensures
      (Task.atomically label (onJournal (Journal.advanceEpoch expected)))
      (fun _ t => Carries sha256 cp pending t.sidecar) (fun _ _ => True) s := by
  rw [ensures_atomically]
  refine ⟨hinv, fun t ht _ => ?_⟩
  obtain ⟨l, hl⟩ := (bindingProtocol sha256 config).stable hinv ht
  have hc' : Carries sha256 cp pending t.sidecar := by
    rw [ht.sidecar]
    exact hc
  rw [wp_onJournal]
  refine wp_mono (Journal.wp_advanceEpoch expected hl.refines) ?_ ?_
  · rintro next j ⟨-, hj⟩
    refine ⟨⟨_, hj, fun q hq hfresh => ?_, hl.bound⟩, hc'⟩
    rw [show j.head = t.journal.head from hl.refines.head_eq_of_entries hj rfl]
    exact hl.unbound q hq hfresh
  · intro e j hj
    refine ⟨⟨l, hj, fun q hq hfresh => ?_, hl.bound⟩, hc'⟩
    rw [show j.head = t.journal.head from hl.refines.head_eq_of_entries hj rfl]
    exact hl.unbound q hq hfresh

theorem currentEpoch_ensures
    (hinv : (bindingProtocol sha256 config).inv s) (hc : Carries sha256 cp pending s.sidecar) :
    (bindingProtocol sha256 config).Ensures (Task.atomically .currentEpoch currentEpoch)
      (fun _ t => Carries sha256 cp pending t.sidecar) (fun _ _ => True) s := by
  refine read_ensures hinv fun t ht => ⟨rfl, ?_⟩
  rw [ht.sidecar]
  exact hc

variable {ed : Ed25519}

section
variable (hinv : (bindingProtocol sha256 config).inv s)
include hinv

theorem capturePublishBind_ensures (nowSecs : UInt64) (key : ed.SigningKey)
    (predecessor : Option Checkpoint) (record : Checkpoint → WitnessRecord) :
    (bindingProtocol sha256 config).Ensures
      (capturePublishBind sha256 ed nowSecs key predecessor record)
      (fun outcome t => ∀ c, outcome = .bound c → placed sha256 c t.journal = true)
      (fun _ _ => True) s := by
  rw [capturePublishBind, ensures_bind]
  refine (capture_ensures hinv).mono (fun head t hinv hhead => ?_) (fun _ _ _ h => h)
  rw [ensures_bind, ensures_ofExcept]
  refine ⟨hinv, fun cp hcp => ?_, fun _ _ => trivial⟩
  obtain ⟨hcphead, hw⟩ : cp.head = .ofJournal head ∧ cp.WellFormed := by
    cases predecessor with
    | none => exact Checkpoint.sign_spec hcp
    | some previous => exact Checkpoint.signAfter_spec hcp
  rw [ensures_bind]
  refine (publishPrepared_ensures hinv hw (by rw [hcphead]; exact hhead)).mono ?_ (fun _ _ _ h => h)
  rintro ⟨prepared, pending⟩ u hinv ⟨hc, hevent, hepoch⟩
  exact bindPublished_ensures hinv hc hevent hepoch

theorem captureRotatePublishBind_ensures (nowSecs : UInt64) (oldKey newKey : ed.SigningKey)
    (predecessor : Checkpoint) (record : Checkpoint → WitnessRecord) :
    (bindingProtocol sha256 config).Ensures
      (captureRotatePublishBind sha256 ed nowSecs oldKey newKey predecessor record)
      (fun outcome t => ∀ c, outcome = .bound c → placed sha256 c t.journal = true)
      (fun _ _ => True) s := by
  rw [captureRotatePublishBind, ensures_bind]
  refine (capture_ensures hinv).mono (fun head t hinv hhead => ?_) (fun _ _ _ h => h)
  generalize hcp : Checkpoint.rotateAfter sha256 ed (.ofJournal head) nowSecs predecessor oldKey
    newKey = cp
  obtain ⟨hcphead, hw⟩ : cp.head = .ofJournal head ∧ cp.WellFormed := by
    rw [← hcp]
    exact Checkpoint.rotateAfter_spec predecessor oldKey newKey
  simp only [ensures_bind]
  refine (publishPrepared_ensures hinv hw (by rw [hcphead]; exact hhead)).mono ?_ (fun _ _ _ h => h)
  rintro ⟨prepared, pending⟩ u hinv ⟨hc, hevent, hepoch⟩
  exact bindPublished_ensures hinv hc hevent hepoch

theorem captureResetPublishBind_ensures (nowSecs : UInt64) (newKey : ed.SigningKey)
    (predecessor : Checkpoint) (record : Checkpoint → WitnessRecord) :
    (bindingProtocol sha256 config).Ensures
      (captureResetPublishBind sha256 ed nowSecs newKey predecessor record)
      (fun outcome t => ∀ c, outcome = .bound c → placed sha256 c t.journal = true)
      (fun _ _ => True) s := by
  rw [captureResetPublishBind, ensures_bind]
  refine (capture_ensures hinv).mono (fun head t hinv hhead => ?_) (fun _ _ _ h => h)
  rw [ensures_bind, ensures_ofExcept]
  refine ⟨hinv, fun nextEpoch _ => ?_, fun _ _ => trivial⟩
  rw [ensures_bind, ensures_ofExcept]
  refine ⟨hinv, fun cp hcp => ?_, fun _ _ => trivial⟩
  obtain ⟨hcphead, hw⟩ := Checkpoint.trustResetAfter_spec hcp
  rw [ensures_bind]
  refine (publishPrepared_ensures hinv hw (by rw [hcphead]; exact hhead)).mono ?_ (fun _ _ _ h => h)
  rintro ⟨prepared, pending⟩ u hinv ⟨hc, hevent, hepoch⟩
  simp only [ensures_bind]
  refine (advanceEpoch_ensures head.epoch hinv hc).mono (fun advanced v hinv hc => ?_)
    (fun _ _ _ h => h)
  cases advanced with
  | error e => exact persistFailed_ensures _ hinv hc
  | ok _ =>
    simp only [ensures_bind]
    refine (currentEpoch_ensures hinv hc).mono (fun epoch w hinv hc => ?_) (fun _ _ _ h => h)
    rw [ensures_ite]
    refine ⟨fun hne => ?_, fun _ => bindPublished_ensures hinv hc hevent hepoch⟩
    have hfailed := persistFailed_ensures (e := .journal .proofMismatch)
      (Q := fun outcome t => ∀ c, outcome = PublicationOutcome.bound c →
        placed sha256 c t.journal = true) (epoch ≠ cp.head.epoch) hinv hc
    rw [Task.runIf, if_pos hne] at hfailed
    exact hfailed

theorem rebind_ensures (hc : Carries sha256 cp pending s.sidecar) :
    (bindingProtocol sha256 config).Ensures (rebind sha256 pending record)
      (fun _ t => placed sha256 cp t.journal = true) (fun _ _ => True) s := by
  obtain rfl := hc.checkpoint
  rw [rebind, ensures_bind]
  refine (currentEpoch_ensures hinv hc).mono (fun epoch t hinv hc => ?_) (fun _ _ _ h => h)
  rw [ensures_ite]
  refine ⟨fun hne => ?_, fun _ => ?_⟩
  · have hfailed := persistFailed_ensures (e := .journal .proofMismatch)
      (Q := fun (_ : Unit) t => placed sha256 pending.checkpoint t.journal = true)
      (epoch ≠ pending.checkpoint.head.epoch) hinv hc
    rw [Task.runIf, if_pos hne] at hfailed
    exact hfailed
  rw [ensures_bind, ensures_ofExcept]
  refine ⟨hinv, fun prepared hprepared => ?_, fun _ _ => trivial⟩
  obtain ⟨-, hepoch, -, -⟩ := prepareBinding_eq_ok hprepared
  rw [ensures_bind, ensures_ofExcept]
  refine ⟨hinv, fun _ hmatches => ?_, fun _ _ => trivial⟩
  rw [Except.ite_error_eq_ok] at hmatches
  have hevent : prepared.eventId = pending.eventId := by
    by_contra hne
    exact hmatches.1 (.inl hne)
  rw [ensures_bind, ensures_atomically]
  refine ⟨hinv, fun u hu _ => ?_⟩
  obtain ⟨l, hl⟩ := (bindingProtocol sha256 config).stable hinv hu
  have hc' : Carries sha256 pending.checkpoint pending u.sidecar := by
    rw [hu.sidecar]
    exact hc
  rw [wp_tryJournal]
  refine wp_mono (appendBinding_standing hl hc'.live hevent hepoch) ?_ ?_
  · rintro _ j ⟨hinv', hplaced⟩
    exact ⟨hinv', settleBound_ensures hinv' hc' hplaced⟩
  · exact fun _ j hinv' => ⟨hinv', trivial⟩

theorem reconcileBinding_ensures
    (hc : Carries sha256 cp pending s.sidecar) :
    (bindingProtocol sha256 config).Ensures (reconcileBinding sha256 pending record)
      (fun _ t => placed sha256 cp t.journal = true) (fun _ _ => True) s := by
  simp only [reconcileBinding, ensures_ite]
  refine ⟨fun _ => ⟨hinv, trivial⟩, fun _ => ?_⟩
  rw [ensures_bind]
  refine (read_ensures (Q := fun _ t => Carries sha256 cp pending t.sidecar) hinv
    fun t ht => ?_).mono (fun head t hinv hc => ?_) (fun _ _ _ h => h)
  · rw [wp_tryJournal]
    refine ⟨rfl, ?_⟩
    rw [ht.sidecar]
    exact hc
  simp only [ensures_ite]
  refine ⟨fun _ => ⟨hinv, trivial⟩, fun _ => ⟨fun _ => ?_, fun _ => rebind_ensures hinv hc⟩⟩
  rw [ensures_bind]
  refine (advanceEpoch_ensures head.epoch hinv hc).mono (fun advanced u hinv hc => ?_)
    (fun _ _ _ h => h)
  cases advanced with
  | error e => exact persistFailed_ensures _ hinv hc
  | ok _ => exact rebind_ensures hinv hc

end

theorem pendingBinding_eq_some {found : PendingBinding}
    (h : pendingBinding sha256 s = .ok (some found)) :
    ∃ bytes, s.sidecar = some bytes ∧ decodePending sha256 bytes = .ok found := by
  simp only [pendingBinding, Except.bind_eq_ok] at h
  obtain ⟨sidecar, hsidecar, h⟩ := h
  cases sidecar with
  | none => cases h
  | some bytes =>
    refine ⟨bytes, ?_, ?_⟩
    · cases hfile : s.sidecar with
      | none => simp [hfile, secureRead] at hsidecar
      | some file =>
        rw [hfile, secureRead, Except.ite_error_eq_ok] at hsidecar
        exact Except.ok.inj hsidecar.2
    · simp only [Except.bind_eq_ok] at h
      obtain ⟨pending, hpending, artifact, -, h⟩ := h
      have hsame : pending = found := by
        split at h
        all_goals
          split at h
          · exact Option.some.inj (Except.ok.inj h)
          · cases h
      rw [← hsame, hpending]

theorem reconcilePending_ensures (hinv : (bindingProtocol sha256 config).inv s) :
    (bindingProtocol sha256 config).Ensures (reconcilePending sha256)
      (fun cp t => placed sha256 cp t.journal = true) (fun _ _ => True) s := by
  rw [reconcilePending, ensures_bind]
  refine (read_ensures (Q := fun found t => pendingBinding sha256 t = .ok (some found)) hinv
    fun t _ => ?_).mono (fun found t hinv hfound => ?_) (fun _ _ _ h => h)
  · simp only [wp_bind, wp_get, wp_ofExcept, wp_okOr]
    refine ⟨fun found hfound => ⟨fun p hp => ⟨trivial, ?_⟩, fun _ => trivial⟩, fun _ _ => trivial⟩
    rw [hfound, hp]
  obtain ⟨bytes, hsidecar, hdecode⟩ := pendingBinding_eq_some hfound
  obtain ⟨record, hw⟩ := decodePending_wellFormed hdecode
  rw [ensures_ite]
  refine ⟨fun _ => ⟨hinv, trivial⟩, fun halive => ?_⟩
  have hc : Carries sha256 found.checkpoint found t.sidecar := by
    refine ⟨?_, rfl, record, hw⟩
    rw [hsidecar, livePending, hdecode]
    exact if_neg halive
  have hrest : ∀ {pending : PendingBinding} {u : System},
      (bindingProtocol sha256 config).inv u → Carries sha256 found.checkpoint pending u.sidecar →
      (bindingProtocol sha256 config).Ensures (do
        let decoded ← Task.ofExcept
          ((decodeRecord pending.recordBytes).mapError fun _ => CheckpointError.invalidArtifact)
        reconcileBinding sha256 pending decoded.record
        pure pending.checkpoint)
        (fun cp t => placed sha256 cp t.journal = true) (fun _ _ => True) u := by
    intro pending u hinv hc
    rw [ensures_bind, ensures_ofExcept]
    refine ⟨hinv, fun decoded _ => ?_, fun _ _ => trivial⟩
    rw [ensures_bind]
    refine (reconcileBinding_ensures hinv hc).mono (fun _ v hinv hplaced => ⟨hinv, ?_⟩)
      (fun _ _ _ h => h)
    rw [hc.checkpoint]
    exact hplaced
  rw [ensures_bind, Task.runIf, ensures_ite]
  refine ⟨fun hprepared => ?_, fun hother => ?_⟩
  · rw [ensures_bind, ensures_atomically]
    refine ⟨hinv, fun u hu _ => ?_⟩
    obtain ⟨l, hl⟩ := (bindingProtocol sha256 config).stable hinv hu
    have hc' : Carries sha256 found.checkpoint found u.sidecar := by
      rw [hu.sidecar]
      exact hc
    simp only [publish, wp_bind, wp_rejectIf, wp_modify, if_pos hprepared]
    refine ⟨fun _ => ⟨⟨l, hl⟩, trivial⟩, fun _ => ⟨⟨l, hl.refines, hl.unbound, hl.bound⟩, ?_⟩⟩
    refine persistPendingReplace_ensures ⟨l, hl.refines, hl.unbound, hl.bound⟩ hc' rfl rfl
      ⟨record, { hw with }⟩ ?_
    intro m v hm hv
    refine hrest ⟨m, hm.replace (q := found) ?_ { hw with } rfl rfl⟩ ⟨?_, rfl, record, { hw with }⟩
    · rw [hv.sidecar]
      exact hc'.live
    · exact livePending_encode sha256 (p := { found with state := .published }) { hw with }
  · simp only [if_neg hother]
    exact ⟨hinv, hrest hinv hc⟩

end Tasks

end Ferrocrate.Witness

import Ferrocrate.Lib.Sha256
import Ferrocrate.Witness.Journal.Run

/-! `records()` beside appends and seals of other threads. Each read of the database and each
transaction is an action of its own; of the coordinator lock nothing is needed here, so it is
left out, and all orders of the actions are allowed. -/
namespace Ferrocrate.Witness
open Lib Lib.Program Journal

def prepare (sha256 : Hasher) (journalId : Id) :
    UInt64 × Digest → List WitnessRecord → Except JournalError (List (WitnessRecord × RecordBytes))
  | _, [] => .ok []
  | (sequence, previous), record :: records => do
    let record := { record with sequence := sequence + 1, previousHash := previous }
    let bytes ← (encodeRecord journalId record).mapError .record
    let rest ← prepare sha256 journalId (record.sequence, hashRecord sha256 bytes) records
    .ok ((record, bytes) :: rest)

def commitRecord (sha256 : Hasher) (limit : Nat) (s : Store)
    (p : WitnessRecord × RecordBytes) : Except JournalError Store :=
  if s.events.contains p.1.eventId then .error .duplicateEvent
  else
    let s := { s with
      records := s.records.put p.1.sequence p.2.bytes
      events := s.events.put p.1.eventId p.1.sequence
      metadata := { s.metadata with
        headSequence := p.1.sequence
        headHash := hashRecord sha256 p.2 } }
    if s.bytes > limit then .error .sqlite else .ok s

def commitRecords (sha256 : Hasher) (limit : Nat) (sequence : UInt64)
    (prepared : List (WitnessRecord × RecordBytes)) (s : Store) : Except JournalError Store :=
  if s.metadata.headSequence ≠ sequence then .error .corrupt
  else prepared.foldlM (commitRecord sha256 limit) s

def sealCopied (entries : List (UInt64 × Bytes)) (current next : UInt64)
    (handoff : UInt64 × Digest) (s : Store) : Except JournalError Store :=
  if s.segments.contains next then .error .corrupt
  else if s.sealedSegments.contains current then .error .corrupt
  else .ok { s with
    sealedSegments := s.sealedSegments.put current (segmentBlob entries)
    records := entries.foldl (fun t e => t.remove e.1) s.records
    segments := s.segments.put next handoff
    metadata := { s.metadata with currentSegment := next } }

def sealedRecords (s : Store) : Except JournalError (List Bytes) := do
  let out ← s.sealedSegments.entries.mapM fun e => parseSegment e.2
  .ok out.flatten

inductive AccessPhase where
  | idle
  | appending (records : List WitnessRecord)
  | prepared (sequence : UInt64) (records : List (WitnessRecord × RecordBytes))
  | sealing (force : Bool)
  | copied (entries : List (UInt64 × Bytes))
  | numbered (entries : List (UInt64 × Bytes)) (current next : UInt64)
  | handing (entries : List (UInt64 × Bytes)) (current next : UInt64) (handoff : UInt64 × Digest)
  | reading
  | scanned (out : List Bytes)

structure Shared where
  journal : WitnessJournal
  phase : Nat → AccessPhase
  returned : List (Except JournalError (List Bytes))

inductive Access where
  | append (thread : Nat) (records : List WitnessRecord)
  | sealSegment (thread : Nat) (force : Bool)
  | records (thread : Nat)
  | step (thread : Nat)

namespace Shared
variable (sha256 : Hasher)

def move (m : Shared) (thread : Nat) (phase : AccessPhase) : Shared :=
  { m with phase := Function.update m.phase thread phase }

def commit (m : Shared) (thread : Nat) (body : Store → Except JournalError Store) : Shared :=
  { m with journal := (transaction body).after m.journal }.move thread .idle

def start (m : Shared) (thread : Nat) (phase : AccessPhase) : Shared :=
  match m.phase thread with
  | .idle => m.move thread phase
  | _ => m

def answer (m : Shared) (thread : Nat) (result : Except JournalError (List Bytes)) : Shared :=
  { m with returned := m.returned ++ [result] }.move thread .idle

def act (m : Shared) (thread : Nat) : Shared :=
  match m.phase thread with
  | .idle => m
  | .appending records =>
    match prepare sha256 m.journal.config.journalId m.journal.head records with
    | .error _ => m.move thread .idle
    | .ok prepared => m.move thread (.prepared m.journal.head.1 prepared)
  | .prepared sequence prepared =>
    m.commit thread (commitRecords sha256 m.journal.config.databaseLimit sequence prepared)
  | .sealing force =>
    if .rotationSeal ∈ m.journal.faults then
      { m with journal := { m.journal with faults := m.journal.faults.erase .rotationSeal } }.move
        thread .idle
    else
      let entries := m.journal.store.records.entries
      let used := (entries.map (·.2.length)).sum
      if entries = [] ∨ (force = false ∧ used < m.journal.config.segmentBytes.toNat) then
        m.move thread .idle
      else m.move thread (.copied entries)
  | .copied entries =>
    match checkedAdd m.journal.store.metadata.currentSegment 1 with
    | none => m.move thread .idle
    | some next =>
      m.move thread (.numbered entries m.journal.store.metadata.currentSegment next)
  | .numbered entries current next =>
    m.move thread (.handing entries current next (m.journal.head.1 + 1, m.journal.head.2))
  | .handing entries current next handoff => m.commit thread (sealCopied entries current next handoff)
  | .reading =>
    match sealedRecords m.journal.store with
    | .error e => m.answer thread (.error e)
    | .ok out => m.move thread (.scanned out)
  | .scanned out => m.answer thread (.ok (out ++ m.journal.store.records.entries.map (·.2)))

def next (m : Shared) : Access → Shared
  | .append thread records => m.start thread (.appending records)
  | .sealSegment thread force => m.start thread (.sealing force)
  | .records thread => m.start thread .reading
  | .step thread => m.act sha256 thread

def run (accesses : List Access) (m : Shared) : Shared := accesses.foldl (next sha256) m

def initial (config : JournalConfig) (faults : Finset FaultPoint) : Shared :=
  ⟨.create config faults, fun _ => .idle, []⟩

def steady (m : Shared) : Access → Bool
  | .step thread =>
    match m.phase thread with
    | .scanned out =>
      match sealedRecords m.journal.store with
      | .error _ => false
      | .ok sealed => sealed = out ∨ m.journal.store.records.entries = []
    | .handing entries current next handoff =>
      match sealCopied entries current next handoff m.journal.store with
      | .error _ => true
      | .ok _ => ∀ e ∈ entries, e ∈ m.journal.store.records.entries
    | _ => true
  | _ => true

def steadyRun : List Access → Shared → Bool
  | [], _ => true
  | a :: as, m => m.steady a && steadyRun as (m.next sha256 a)

end Shared

structure Contiguous (sha256 : Hasher) (rs : List DecodedRecord) : Prop where
  sequence : ∀ i r, rs[i]? = some r → r.record.sequence.toNat = i + 1
  first : ∀ r, rs[0]? = some r → r.record.previousHash = .zero 32
  link : ∀ i r r', rs[i]? = some r → rs[i + 1]? = some r' →
    r'.record.previousHash = hashRecord sha256 r.bytes

def Copied (journalId : Id) (l : Ledger) (s : Store) (entries : List (UInt64 × Bytes)) : Prop :=
  ∃ before block after, l.entries = before ++ (block ++ after) ∧ block ≠ [] ∧
    entries = keyed journalId block ∧ before.length + s.records.size ≤ l.entries.length

def AccessPhase.Sound (sha256 : Hasher) (journalId : Id) (l : Ledger) (s : Store) :
    AccessPhase → Prop
  | .prepared sequence encoded => sequence.toNat ≤ l.entries.length ∧ ∃ records,
      prepare sha256 journalId (sequence, HashChain.tip (recordHash sha256 journalId) (.zero 32)
        (l.entries.take sequence.toNat)) records = .ok encoded
  | .copied entries => Copied journalId l s entries
  | .numbered entries current next | .handing entries current next _ =>
    Copied journalId l s entries ∧ next.toNat = current.toNat + 1 ∧
      current.toNat ≤ s.metadata.currentSegment.toNat
  | .scanned out => ∃ n, n ≤ l.entries.length ∧ out = (l.entries.take n).map (recordLayout journalId)
  | .idle | .appending _ | .sealing _ | .reading => True

structure Shared.Consistent (sha256 : Hasher) (config : JournalConfig) (l : Ledger)
    (m : Shared) : Prop where
  refines : Refines sha256 config l m.journal
  phases : ∀ thread, (m.phase thread).Sound sha256 config.journalId l m.journal.store
  returned : ∀ r ∈ m.returned, ∃ n, n ≤ l.entries.length ∧
    r = .ok ((l.entries.take n).map (recordLayout config.journalId))

structure Grows (l : Ledger) (s : Store) (l' : Ledger) (s' : Store) : Prop where
  entries : l.entries <+: l'.entries
  size : s'.records.size + l.entries.length ≤ s.records.size + l'.entries.length
  current : s.metadata.currentSegment.toNat ≤ s'.metadata.currentSegment.toNat

section Snapshot
variable {sha256 : Hasher} {config : JournalConfig} {l l' : Ledger} {s s' : Store}
  {m : Shared}

theorem Grows.refl (l : Ledger) (s : Store) : Grows l s l s :=
  ⟨List.prefix_rfl, Nat.le_refl _, Nat.le_refl _⟩

theorem Grows.trans {l₂ : Ledger} {s₂ : Store} (h : Grows l s l' s') (h' : Grows l' s' l₂ s₂) :
    Grows l s l₂ s₂ := by
  have hsize := h.size
  have hsize' := h'.size
  exact ⟨h.entries.trans h'.entries, by omega, h.current.trans h'.current⟩

theorem Grows.take_eq (h : Grows l s l' s') {n : Nat} (hn : n ≤ l.entries.length) :
    l'.entries.take n = l.entries.take n := by
  obtain ⟨new, hnew⟩ := h.entries
  rw [← hnew, List.take_append_of_le_length hn]

variable {journalId : Id} {entries : List (UInt64 × Bytes)}

theorem Grows.copied (h : Grows l s l' s')
    (hc : Copied journalId l s entries) : Copied journalId l' s' entries := by
  obtain ⟨before, block, after, hsplit, hne, hentries, hsize⟩ := hc
  obtain ⟨new, hnew⟩ := h.entries
  have hgrow := h.size
  refine ⟨before, block, after ++ new, ?_, hne, hentries, by omega⟩
  rw [← hnew, hsplit, List.append_assoc, List.append_assoc]

theorem Grows.sound {phase : AccessPhase} (h : Grows l s l' s')
    (hp : phase.Sound sha256 journalId l s) : phase.Sound sha256 journalId l' s' := by
  have hlength := h.entries.length_le
  cases phase with
  | prepared sequence prepared =>
    obtain ⟨hle, records, hrecords⟩ := hp
    exact ⟨hle.trans hlength, records, by rw [h.take_eq hle]; exact hrecords⟩
  | copied entries => exact h.copied hp
  | numbered entries current next => exact ⟨h.copied hp.1, hp.2.1, hp.2.2.trans h.current⟩
  | handing entries current next handoff => exact ⟨h.copied hp.1, hp.2.1, hp.2.2.trans h.current⟩
  | scanned out =>
    obtain ⟨n, hn, hout⟩ := hp
    exact ⟨n, hn.trans hlength, by rw [h.take_eq hn]; exact hout⟩
  | idle => trivial
  | appending records => trivial
  | sealing force => trivial
  | reading => trivial

variable {prepared : List (WitnessRecord × RecordBytes)}

theorem prepare_cons {head : UInt64 × Digest} {r : WitnessRecord}
    {rs : List WitnessRecord}
    (h : prepare sha256 journalId head (r :: rs) = .ok prepared) :
    ∃ x rest, x = { r with sequence := head.1 + 1, previousHash := head.2 } ∧
      validRecord x = true ∧
      prepare sha256 journalId (x.sequence, recordHash sha256 journalId x) rs = .ok rest ∧
      prepared = (x, ⟨journalId, recordLayout journalId x⟩) :: rest := by
  obtain ⟨sequence, previous⟩ := head
  simp only [prepare, Except.bind_eq_ok] at h
  obtain ⟨bytes, hbytes, rest, hrest, hprepared⟩ := h
  cases hencode : encodeRecord journalId
      { r with sequence := sequence + 1, previousHash := previous } with
  | error e =>
    rw [hencode] at hbytes
    cases hbytes
  | ok encoded =>
    rw [hencode] at hbytes
    obtain rfl : encoded = bytes := Except.ok.inj hbytes
    obtain ⟨hvalid, -, rfl⟩ := (encodeRecord_ok_iff _ _ _).mp hencode
    exact ⟨_, rest, rfl, hvalid, hrest, (Except.ok.inj hprepared).symm⟩

variable {j : WitnessJournal}

theorem commit_grows (records : List WitnessRecord) {l : Ledger} {s : Store} (h : Refines sha256 config l j)
    (hp : prepare sha256 config.journalId j.head records = .ok prepared)
    (hs : prepared.foldlM (commitRecord sha256 config.databaseLimit) j.store = .ok s) :
    ∃ l', Refines sha256 config l' { j with store := s } ∧ Grows l j.store l' s := by
  induction records generalizing l j prepared with
  | nil =>
    obtain rfl : [] = prepared := Except.ok.inj hp
    obtain rfl : j.store = s := Except.ok.inj hs
    exact ⟨l, h, .refl _ _⟩
  | cons r rs ih =>
    obtain ⟨x, rest, hx, hvalid, hrest, rfl⟩ := prepare_cons hp
    have hstamp : x = l.stamp sha256 config.journalId r.epoch r := hx.trans (h.stamp_eq r.epoch r)
    rw [List.foldlM_cons, Except.bind_eq_ok] at hs
    obtain ⟨s₁, hs₁, hs⟩ := hs
    rw [commitRecord, Except.ite_error_eq_ok] at hs₁
    obtain ⟨hfresh, hs₁⟩ := hs₁
    simp only [Except.ite_error_eq_ok, not_lt, gt_iff_lt] at hs₁
    obtain ⟨hroom, hs₁⟩ := hs₁
    have hstore := Except.ok.inj hs₁
    subst hstamp
    have hcommit := h.commit hstore (by rw [h.sameConfig, ← hstore]; exact hroom)
      (h.fresh hfresh) hvalid rfl rfl rfl rfl h.represents.operations h.represents.pending h.enabled
    have hgrow : Grows l j.store (l.extend (l.stamp sha256 config.journalId r.epoch r)) s₁ := by
      have hkey := h.stamp_toNat r.epoch r
      refine ⟨List.prefix_append _ _, ?_, by rw [← hstore]⟩
      rw [← hstore, Tree.size, h.entries_put _ (by omega), Tree.size, Ledger.entries_extend]
      simp only [List.length_append, List.length_singleton]
      omega
    obtain ⟨l', hl', hgrow'⟩ := ih hcommit (by rw [← hrest, ← hstore]; rfl) hs
    exact ⟨l', hl', hgrow.trans hgrow'⟩

theorem Represents.current_eq {current : UInt64}
    (h : Represents sha256 journalId s l) (hle : current.toNat ≤ s.metadata.currentSegment.toNat)
    (hnew : ¬ s.sealedSegments.contains current = true) : current = s.metadata.currentSegment := by
  obtain ⟨blocks, active, -, hscan⟩ := h.scan
  by_contra hne
  have hlt : current.toNat < blocks.length := by
    have hne' : current.toNat ≠ s.metadata.currentSegment.toNat :=
      fun heq => hne (UInt64.toNat_inj.mp heq)
    rw [← hscan.current]
    omega
  have hkey : current.toNat ∈ s.sealedSegments.entries.map (·.1.toNat) := by
    rw [hscan.keys]
    exact List.mem_range.mpr hlt
  obtain ⟨⟨k, v⟩, hmem, hk⟩ := List.mem_map.mp hkey
  obtain rfl : k = current := UInt64.toNat_inj.mp hk
  exact hnew ((Tree.get_isSome_iff _).mpr ⟨v, hmem⟩)

theorem Represents.copied_front
    (h : Represents sha256 journalId s l) (hc : Copied journalId l s entries)
    (hstay : ∀ e ∈ entries, e ∈ s.records.entries) :
    entries ≠ [] ∧ ∃ rest, s.records.entries = entries ++ rest := by
  obtain ⟨before, block, after, hsplit, hne, rfl, hsize⟩ := hc
  obtain ⟨blocks, active, hentries, hscan⟩ := h.scan
  obtain ⟨r, rs, rfl⟩ := List.exists_cons_of_ne_nil hne
  have hfirst : r.sequence.toNat = before.length + 1 :=
    h.wellFormed.numbered before.length r (by rw [hsplit]; simp)
  have hmem := hstay (r.sequence, recordLayout journalId r) List.mem_cons_self
  rw [hscan.records] at hmem
  obtain ⟨x, hx, hkey⟩ := List.mem_map.mp hmem
  obtain ⟨i, hi⟩ := List.getElem?_of_mem hx
  have hnumber : x.sequence.toNat = blocks.flatten.length + i + 1 :=
    h.wellFormed.numbered _ x (by
      rw [hentries, List.getElem?_append_right (Nat.le_add_right _ _), Nat.add_sub_cancel_left, hi])
  have hsame : x.sequence = r.sequence := congrArg Prod.fst hkey
  have hlength : before.length = blocks.flatten.length := by
    rw [hsame] at hnumber
    rw [Tree.size, hscan.records, hentries, keyed, List.length_map, List.length_append] at hsize
    omega
  have hactive : (r :: rs) ++ after = active :=
    (List.append_inj (hsplit.symm.trans hentries) hlength).2
  refine ⟨by simp [keyed], keyed journalId after, ?_⟩
  rw [hscan.records, ← hactive, keyed, List.map_append]
  rfl

theorem seal_grows {current next : UInt64}
    {handoff : UInt64 × Digest} (h : Refines sha256 config l j)
    (hp : (AccessPhase.handing entries current next handoff).Sound sha256 config.journalId l j.store)
    (hs : sealCopied entries current next handoff j.store = .ok s)
    (hroom : s.bytes ≤ config.databaseLimit) (hstay : ∀ e ∈ entries, e ∈ j.store.records.entries) :
    Refines sha256 config l { j with store := s } ∧ Grows l j.store l s := by
  obtain ⟨hcopied, hnext, hcurrent⟩ := hp
  simp only [sealCopied, Except.ite_error_eq_ok] at hs
  obtain ⟨-, hunsealed, hs⟩ := hs
  obtain rfl := h.represents.current_eq hcurrent hunsealed
  obtain ⟨hne, rest, hfront⟩ := h.represents.copied_front hcopied hstay
  obtain rfl := Except.ok.inj hs
  refine ⟨⟨h.sameConfig, h.represents.sealed_front hfront hne hnext, h.epoch, hroom, h.enabled⟩,
    List.prefix_rfl, ?_, ?_⟩
  · have hrest := Tree.entries_foldl_remove entries j.store.records hfront
    simp only [Tree.size, hrest, hfront, List.length_append]
    omega
  · show _ ≤ next.toNat
    omega

theorem Scan.sealedRecords_eq {blocks : List (List WitnessRecord)}
    {active : List WitnessRecord} (h : Scan journalId s blocks active) :
    sealedRecords s = .ok (blocks.flatten.map (recordLayout journalId)) := by
  rw [sealedRecords, h.mapM_parseSegment, List.map_flatten]
  rfl

namespace Shared.Consistent

section
variable (h : m.Consistent sha256 config l)
include h

theorem move (thread : Nat) {phase : AccessPhase}
    (hphase : phase.Sound sha256 config.journalId l m.journal.store) :
    (m.move thread phase).Consistent sha256 config l := by
  refine ⟨h.refines, fun t => ?_, h.returned⟩
  by_cases ht : t = thread
  · subst ht
    simpa only [Shared.move, Function.update_self] using hphase
  · simpa only [Shared.move, Function.update_of_ne ht] using h.phases t

theorem start (thread : Nat) {phase : AccessPhase}
    (hphase : phase.Sound sha256 config.journalId l m.journal.store) :
    (m.start thread phase).Consistent sha256 config l := by
  unfold Shared.start
  split
  · exact h.move thread hphase
  · exact h

theorem answer (thread : Nat) {n : Nat}
    (hn : n ≤ l.entries.length) : (m.answer thread
      (.ok ((l.entries.take n).map (recordLayout config.journalId)))).Consistent sha256 config l := by
  have hreturned : Shared.Consistent sha256 config l { m with returned := m.returned
      ++ [.ok ((l.entries.take n).map (recordLayout config.journalId))] } := by
    refine ⟨h.refines, h.phases, fun r hr => ?_⟩
    obtain hr | hr := List.mem_append.mp hr
    · exact h.returned r hr
    · exact ⟨n, hn, List.mem_singleton.mp hr⟩
  exact hreturned.move thread trivial

theorem commit (thread : Nat)
    {body : Store → Except JournalError Store}
    (hbody : ∀ s, body m.journal.store = .ok s → s.bytes ≤ config.databaseLimit →
      ∃ l', Refines sha256 config l' { m.journal with store := s } ∧ Grows l m.journal.store l' s) :
    ∃ l', (m.commit thread body).Consistent sha256 config l' := by
  have hafter : ∃ l', Refines sha256 config l' ((transaction body).after m.journal) ∧
      Grows l m.journal.store l' ((transaction body).after m.journal).store := by
    let P (j : WitnessJournal) := ∃ l', Refines sha256 config l' j ∧ Grows l m.journal.store l' j.store
    have hkept : P m.journal := ⟨l, h.refines, .refl _ _⟩
    have hwp : wp (transaction body) (fun _ => P) (fun _ => P) m.journal := by
      rw [wp_transaction]
      refine ⟨fun s hs => ⟨fun hroom => hbody s hs ?_, fun _ => hkept⟩, fun _ _ => hkept⟩
      rw [← h.refines.sameConfig]
      exact hroom
    exact after_of_wp hwp
  obtain ⟨l', hl', hgrow⟩ := hafter
  have hstore : { m with journal := (transaction body).after m.journal }.Consistent sha256 config l' := by
    refine ⟨hl', fun t => hgrow.sound (h.phases t), fun r hr => ?_⟩
    obtain ⟨n, hn, rfl⟩ := h.returned r hr
    exact ⟨n, hn.trans hgrow.entries.length_le, by rw [hgrow.take_eq hn]⟩
  exact ⟨l', hstore.move thread trivial⟩

theorem act (thread : Nat)
    (hsteady : m.steady (.step thread) = true) :
    ∃ l', (m.act sha256 thread).Consistent sha256 config l' := by
  have hidle : ∃ l', (m.move thread .idle).Consistent sha256 config l' := ⟨l, h.move thread trivial⟩
  have hself := h.phases thread
  cases hphase : m.phase thread with
  | idle =>
    simp only [Shared.act, hphase]
    exact ⟨l, h⟩
  | appending records =>
    simp only [Shared.act, hphase]
    split
    · exact hidle
    next encoded hencoded =>
    refine ⟨l, h.move thread ⟨?_, records, ?_⟩⟩
    · rw [WitnessJournal.head, h.refines.represents.headSequence]
    · rw [h.refines.sameConfig] at hencoded
      rw [← hencoded, WitnessJournal.head, h.refines.represents.headSequence, List.take_length,
        h.refines.represents.headHash]
      rfl
  | prepared sequence encoded =>
    rw [hphase] at hself
    obtain ⟨-, records, hrecords⟩ := hself
    simp only [Shared.act, hphase, h.refines.sameConfig]
    refine h.commit thread fun s hs _ => ?_
    rw [commitRecords, Except.ite_error_eq_ok] at hs
    obtain ⟨hhead, hs⟩ := hs
    refine commit_grows records h.refines ?_ hs
    rw [← not_not.mp hhead, h.refines.represents.headSequence, List.take_length] at hrecords
    rw [← hrecords, WitnessJournal.head, h.refines.represents.headHash]
    rfl
  | sealing force =>
    simp only [Shared.act, hphase]
    split
    · have htaken := h.refines.of_handle (m.journal.faults.erase .rotationSeal)
        m.journal.automationStopped m.journal.stopMarker m.journal.reserveFile m.journal.mirror
      have hconsistent : { m with journal := { m.journal with
          faults := m.journal.faults.erase .rotationSeal } }.Consistent sha256 config l :=
        ⟨htaken, h.phases, h.returned⟩
      exact ⟨l, hconsistent.move thread trivial⟩
    · split
      · exact hidle
      next hsome =>
      refine ⟨l, h.move thread ?_⟩
      obtain ⟨blocks, active, hentries, hscan⟩ := h.refines.represents.scan
      refine ⟨blocks.flatten, active, [], by rw [hentries, List.append_nil], ?_, hscan.records, ?_⟩
      · rintro rfl
        exact hsome (.inl hscan.records)
      · rw [Tree.size, hscan.records, hentries, keyed, List.length_map, List.length_append]
  | copied entries =>
    rw [hphase] at hself
    simp only [Shared.act, hphase]
    split
    · exact hidle
    next next hnext => exact ⟨l, h.move thread ⟨hself, toNat_checkedAdd hnext, Nat.le_refl _⟩⟩
  | numbered entries current next =>
    rw [hphase] at hself
    simp only [Shared.act, hphase]
    exact ⟨l, h.move thread hself⟩
  | handing entries current next handoff =>
    rw [hphase] at hself
    simp only [Shared.act, hphase]
    refine h.commit thread fun s hs hroom => ?_
    simp only [Shared.steady, hphase, hs, decide_eq_true_eq] at hsteady
    exact ⟨l, seal_grows h.refines hself hs hroom hsteady⟩
  | reading =>
    obtain ⟨blocks, active, hentries, hscan⟩ := h.refines.represents.scan
    simp only [Shared.act, hphase, hscan.sealedRecords_eq]
    refine ⟨l, h.move thread ⟨blocks.flatten.length, ?_, ?_⟩⟩
    · rw [hentries, List.length_append]
      omega
    · rw [hentries, List.take_left]
  | scanned out =>
    rw [hphase] at hself
    obtain ⟨n, hn, rfl⟩ := hself
    obtain ⟨blocks, active, hentries, hscan⟩ := h.refines.represents.scan
    simp only [Shared.steady, hphase, hscan.sealedRecords_eq, decide_eq_true_eq] at hsteady
    simp only [Shared.act, hphase]
    obtain hsame | hempty := hsteady
    · have hwhole : (l.entries.take n).map (recordLayout config.journalId)
          ++ m.journal.store.records.entries.map (·.2)
            = (l.entries.take l.entries.length).map (recordLayout config.journalId) := by
        rw [← hsame, hscan.records, List.take_length, hentries, List.map_append, keyed,
          List.map_map]
        rfl
      rw [hwhole]
      exact ⟨l, h.answer thread (Nat.le_refl _)⟩
    · rw [hempty, List.map_nil, List.append_nil]
      exact ⟨l, h.answer thread hn⟩

theorem next (a : Access) (ha : m.steady a = true) :
    ∃ l', (m.next sha256 a).Consistent sha256 config l' := by
  cases a with
  | append thread records => exact ⟨l, h.start thread trivial⟩
  | sealSegment thread force => exact ⟨l, h.start thread trivial⟩
  | records thread => exact ⟨l, h.start thread trivial⟩
  | step thread => exact h.act thread ha

theorem run (accesses : List Access)
    (hs : steadyRun sha256 accesses m = true) :
    ∃ l', (m.run sha256 accesses).Consistent sha256 config l' := by
  induction accesses generalizing m l with
  | nil => exact ⟨l, h⟩
  | cons a as ih =>
    rw [steadyRun, Bool.and_eq_true] at hs
    obtain ⟨l', h'⟩ := h.next a hs.1
    exact ih h' hs.2

end

end Shared.Consistent

theorem Shared.initial_consistent (sha256 : Hasher) (config : JournalConfig)
    (faults : Finset FaultPoint) : (Shared.initial config faults).Consistent sha256 config .empty :=
  ⟨create_refines sha256 config faults, fun _ => trivial, fun _ hr => (nomatch hr)⟩

theorem RecordChain.contiguous {rs : List DecodedRecord}
    (h : RecordChain sha256 j rs) (n : Nat) : Contiguous sha256 (rs.take n) := by
  have hget : ∀ {i : Nat} {r : DecodedRecord}, (rs.take n)[i]? = some r → rs[i]? = some r := by
    intro i r hr
    rw [List.getElem?_take] at hr
    split at hr
    · exact hr
    · cases hr
  exact ⟨fun i r hr => h.sequence i r (hget hr), fun r hr => h.first r (hget hr),
    fun i r r' hr hr' => h.link i r r' (hget hr) (hget hr')⟩

end Snapshot

/-- In every run in which nothing is sealed between the two scans of a `records()` while an
active record is left, and no seal moves records that another seal has moved already, every
result of `records()` is a chain of records from the first on, and a prefix of the journal. -/
theorem run_snapshots_contiguous (sha256 : Hasher) (config : JournalConfig)
    (faults : Finset FaultPoint) (accesses : List Access)
    (hs : Shared.steadyRun sha256 accesses (.initial config faults) = true) :
    ∀ r ∈ (Shared.run sha256 accesses (.initial config faults)).returned,
      ∃ out stored rs, r = .ok out ∧
        Journal.records (Shared.run sha256 accesses (.initial config faults)).journal = .ok stored ∧
        out <+: stored ∧ out.mapM decodeRecord = .ok rs ∧ Contiguous sha256 rs := by
  obtain ⟨l, h⟩ := (Shared.initial_consistent sha256 config faults).run accesses hs
  intro r hr
  obtain ⟨n, -, rfl⟩ := h.returned r hr
  refine ⟨_, _, (l.entries.map (decodedEntry config.journalId)).take n, rfl, h.refines.records_eq,
    ?_, ?_, h.refines.recordChain.contiguous n⟩
  · rw [List.map_take]
    exact List.take_prefix _ _
  · rw [mapM_decodeRecord _ fun x hx =>
      h.refines.represents.wellFormed.valid x (List.mem_of_mem_take hx), List.map_take]

def returnedSequences : Except JournalError (List Bytes) → List Nat
  | .error _ => []
  | .ok out => out.filterMap fun bytes =>
    match decodeRecord bytes with
    | .error _ => none
    | .ok d => some d.record.sequence.toNat

def appends (thread : Nat) (event : UInt8) : List Access :=
  [.append thread [plainRecord (.fill 16 7) (.fill 16 event) .requestReceived], .step thread,
    .step thread]

def maintains (thread : Nat) : List Access :=
  .sealSegment thread true :: List.replicate 4 (.step thread)

def reads (thread : Nat) : List Access := [.records thread, .step thread, .step thread]

def shared (accesses : List Access) : Shared :=
  .run Sha256.sha256 accesses (.initial (.new (.zero 16) .required) ∅)

theorem run_snapshots_contiguous_sealed :
    (shared (appends 0 1 ++ maintains 1 ++ appends 0 2 ++ reads 2)).returned.map returnedSequences
      = [[1, 2]] ∧
    ∀ r ∈ (shared (appends 0 1 ++ maintains 1 ++ appends 0 2 ++ reads 2)).returned,
      ∃ out stored rs, r = .ok out ∧
        Journal.records (shared (appends 0 1 ++ maintains 1 ++ appends 0 2 ++ reads 2)).journal
          = .ok stored ∧
        out <+: stored ∧ out.mapM decodeRecord = .ok rs ∧ Contiguous Sha256.sha256 rs := by
  have hrun : (shared (appends 0 1 ++ maintains 1 ++ appends 0 2 ++ reads 2)).returned.map
        returnedSequences = [[1, 2]] ∧
      Shared.steadyRun Sha256.sha256 (appends 0 1 ++ maintains 1 ++ appends 0 2 ++ reads 2)
        (.initial (.new (.zero 16) .required) ∅) = true := by
    decide +kernel
  exact ⟨hrun.1, run_snapshots_contiguous _ _ _ _ hrun.2⟩

def readAcrossSeal : List Access :=
  appends 0 1 ++ (reads 2).take 2 ++ maintains 1 ++ appends 0 2 ++ (reads 2).drop 2

def sealedTwice : List Access :=
  appends 0 1 ++ (maintains 1).take 2 ++ maintains 2 ++ (maintains 1).drop 2 ++ reads 3

/-- A `records()` across a seal misses a record; two seals at a time store one twice. -/
theorem read_across_seal_misses_record :
    (shared readAcrossSeal).returned.map returnedSequences = [[2]] ∧
      (shared sealedTwice).returned.map returnedSequences = [[1, 1]] := by
  decide +kernel

end Ferrocrate.Witness

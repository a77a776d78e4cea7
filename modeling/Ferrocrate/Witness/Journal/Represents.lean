import Ferrocrate.Witness.Journal.Ledger
import Ferrocrate.Witness.Journal.Operations
import Ferrocrate.Witness.Layout

/-! How the trees of a journal represent a ledger: sealed segments first, then the active
tree, an event index, and the encoded operations. Appending a record and sealing the
active tree keep this up. -/
namespace Ferrocrate.Witness
open Lib Journal

def keyed (journalId : Id) (rs : List WitnessRecord) : List (UInt64 × Bytes) :=
  rs.map fun r => (r.sequence, recordLayout journalId r)

/-! Reading a sealed segment back. -/

theorem parseFrom_segmentBlob (es : List (UInt64 × Bytes)) (h : ∀ e ∈ es, e.2.length < 2 ^ 32)
    (fuel : Nat) (hf : es.length ≤ fuel) : parseFrom fuel (segmentBlob es) = .ok (es.map (·.2)) := by
  induction es generalizing fuel with
  | nil => cases fuel <;> rfl
  | cons e es ih =>
    obtain ⟨fuel, rfl⟩ : ∃ n, fuel = n + 1 := ⟨fuel - 1, by simp at hf; omega⟩
    have hlen := h e List.mem_cons_self
    have hrest := ih (fun x hx => h x (List.mem_cons_of_mem _ hx)) fuel (by simpa using hf)
    have hblob : segmentBlob (e :: es) = u64Be e.1 ++ (u32Be e.2.length ++ (e.2 ++ segmentBlob es)) := by
      simp [segmentBlob]
    have hcons : ∃ b bs, segmentBlob (e :: es) = b :: bs := by
      rw [hblob]
      exact ⟨_, _, rfl⟩
    have h8 : (segmentBlob (e :: es)).drop 8 = u32Be e.2.length ++ (e.2 ++ segmentBlob es) := by
      rw [hblob, List.drop_left' (length_u64Be _)]
    have h12 : (segmentBlob (e :: es)).drop 12 = e.2 ++ segmentBlob es := by
      rw [show 12 = 8 + 4 from rfl, ← List.drop_drop, h8, List.drop_left' (length_u32Be _)]
    have h4 : ((segmentBlob (e :: es)).drop 8).take 4 = u32Be e.2.length := by
      rw [h8, List.take_left' (length_u32Be _)]
    have hl : ¬ (segmentBlob (e :: es)).length < 12 := by
      rw [hblob]
      simp
      omega
    obtain ⟨b, bs, hb⟩ := hcons
    rw [hb] at h12 h4 hl ⊢
    rw [parseFrom.eq_3 _ _ (by simp), if_neg hl]
    simp only [h4, h12, ofBe_u32Be hlen]
    rw [if_neg (by simp), List.drop_left' rfl, List.take_left' rfl, hrest]
    rfl

theorem length_le_segmentBlob (es : List (UInt64 × Bytes)) : es.length ≤ (segmentBlob es).length := by
  induction es with
  | nil => simp
  | cons e es ih =>
    simp only [segmentBlob, List.flatMap_cons, List.length_append, List.length_cons,
      length_u64Be] at ih ⊢
    omega

theorem parseSegment_segmentBlob {es : List (UInt64 × Bytes)} (h : ∀ e ∈ es, e.2.length < 2 ^ 32) :
    parseSegment (segmentBlob es) = .ok (es.map (·.2)) :=
  parseFrom_segmentBlob es h _ (length_le_segmentBlob es)

structure Scan (journalId : Id) (s : Store) (blocks : List (List WitnessRecord))
    (active : List WitnessRecord) : Prop where
  nonempty : ∀ b ∈ blocks, b ≠ []
  blobs : s.sealedSegments.entries.map (·.2) = blocks.map fun b => segmentBlob (keyed journalId b)
  keys : s.sealedSegments.entries.map (·.1.toNat) = List.range blocks.length
  current : s.metadata.currentSegment.toNat = blocks.length
  segments : ∀ k v, s.segments.get k = some v → k.toNat ≤ blocks.length
  records : s.records.entries = keyed journalId active

structure Represents (sha256 : Hasher) (journalId : Id) (s : Store) (l : Ledger) : Prop where
  wellFormed : l.WellFormed sha256 journalId
  scan : ∃ blocks active, l.entries = blocks.flatten ++ active ∧ Scan journalId s blocks active
  headSequence : s.metadata.headSequence.toNat = l.entries.length
  headHash : s.metadata.headHash = l.tip sha256 journalId
  epoch : s.metadata.epoch = l.epoch
  events : ∀ e k, s.events.get e = some k ↔ ∃ r ∈ l.entries, r.eventId = e ∧ r.sequence = k
  operations : ∀ id, s.operations.get id = (l.operations id).map OperationState.encode
  pending : ∀ id, s.pending.get id = (l.pending id).map fun p => p.2.encode p.1

variable {blocks : List (List WitnessRecord)} {active : List WitnessRecord} {journalId : Id}

theorem Scan.mapM_parseSegment {s : Store} (h : Scan journalId s blocks active) :
    s.sealedSegments.entries.mapM (fun e => parseSegment e.2)
      = .ok (blocks.map (·.map (recordLayout journalId))) := by
  have hparse : ∀ b : List WitnessRecord,
      parseSegment (segmentBlob (keyed journalId b)) = .ok (b.map (recordLayout journalId)) := by
    intro b
    rw [parseSegment_segmentBlob]
    · simp [keyed]
    · intro e he
      obtain ⟨r, -, rfl⟩ := List.mem_map.mp he
      have := length_recordLayout_le journalId r
      show (recordLayout journalId r).length < _
      omega
  have hfun : (fun e : UInt64 × Bytes => parseSegment e.2) = parseSegment ∘ (·.2) := rfl
  rw [hfun, ← List.mapM_map, h.blobs, List.mapM_map]
  simp only [Function.comp_def, hparse]
  exact List.mapM_pure

theorem Scan.records_eq {j : WitnessJournal} (h : Scan journalId j.store blocks active) :
    Journal.records j = .ok ((blocks.flatten ++ active).map (recordLayout journalId)) := by
  simp [Journal.records, h.mapM_parseSegment, h.records, keyed, bind, Except.bind, List.map_flatten,
    Function.comp_def]

theorem Scan.length_le_bytes {s : Store} (h : Scan journalId s blocks active) :
    (blocks.flatten ++ active).length ≤ s.bytes := by
  have hact : active.length ≤ (s.records.entries.map (·.2.length)).sum := by
    rw [h.records]
    clear h
    induction active with
    | nil => simp
    | cons r rs ih =>
      have hr := length_recordLayout_pos journalId r
      simp only [keyed, List.map_cons, List.sum_cons, List.length_cons] at ih ⊢
      omega
  have hseal : blocks.flatten.length ≤ (s.sealedSegments.entries.map (·.2.length)).sum := by
    have hb : s.sealedSegments.entries.map (·.2.length)
        = blocks.map fun b => (segmentBlob (keyed journalId b)).length := by
      have := congrArg (List.map List.length) h.blobs
      simpa [Function.comp_def] using this
    rw [hb, List.length_flatten]
    clear hb h hact
    induction blocks with
    | nil => simp
    | cons b bs ih =>
      have hl := length_le_segmentBlob (keyed journalId b)
      simp only [keyed, List.length_map, List.map_cons, List.sum_cons] at hl ih ⊢
      omega
  rw [List.length_append, Store.bytes]
  omega

namespace Represents
variable {sha256 : Hasher} {journalId : Id} {s : Store} {l : Ledger}

section
variable (h : Represents sha256 journalId s l)
include h

theorem headSequence_eq :
    s.metadata.headSequence = UInt64.ofNat l.entries.length := by
  rw [← h.headSequence, UInt64.ofNat_toNat]

theorem stamp_eq (epoch : UInt64) (r : WitnessRecord) :
    ({ r with
        epoch := epoch
        sequence := s.metadata.headSequence + 1
        previousHash := s.metadata.headHash } : WitnessRecord)
      = l.stamp sha256 journalId epoch r := by
  rw [Ledger.stamp, h.headSequence_eq, h.headHash, UInt64.ofNat_add]
  rfl

theorem contains_event (e : Id) :
    s.events.contains e = true ↔ ¬ l.Fresh e := by
  rw [Tree.contains, Option.isSome_iff_exists, Ledger.Fresh, not_not, List.mem_map]
  simp only [h.events]
  constructor
  · rintro ⟨k, r, hr, he, -⟩
    exact ⟨r, hr, he⟩
  · rintro ⟨r, hr, he⟩
    exact ⟨r.sequence, r, hr, he, rfl⟩

theorem length_le_bytes : l.entries.length ≤ s.bytes := by
  obtain ⟨blocks, active, he, hs⟩ := h.scan
  rw [he]
  exact hs.length_le_bytes

theorem of_metadata {m : Meta}
    (hs : m.headSequence = s.metadata.headSequence) (hh : m.headHash = s.metadata.headHash)
    (he : m.epoch = s.metadata.epoch) (hc : m.currentSegment = s.metadata.currentSegment) :
    Represents sha256 journalId { s with metadata := m } l := by
  obtain ⟨blocks, active, hent, hscan⟩ := h.scan
  exact ⟨h.wellFormed, ⟨blocks, active, hent,
    { hscan with current := by rw [← hscan.current, ← hc] }⟩, by rw [← h.headSequence, ← hs],
    by rw [← h.headHash, ← hh], by rw [← h.epoch, ← he], h.events, h.operations, h.pending⟩

theorem active_lt {e : UInt64 × Bytes}
    (he : e ∈ s.records.entries) : e.1.toNat ≤ l.entries.length := by
  obtain ⟨blocks, active, hent, hscan⟩ := h.scan
  rw [hscan.records] at he
  obtain ⟨r, hr, rfl⟩ := List.mem_map.mp he
  have hmem : r ∈ l.entries := by
    rw [hent]
    exact List.mem_append_right _ hr
  obtain ⟨i, hi⟩ := List.getElem?_of_mem hmem
  obtain ⟨hlt, -⟩ := List.getElem?_eq_some_iff.mp hi
  have := h.wellFormed.numbered i r hi
  show r.sequence.toNat ≤ _
  omega

theorem append {epoch : UInt64} {r : WitnessRecord}
    (hb : l.entries.length + 1 ≤ Ledger.capacity) (hf : l.Fresh r.eventId)
    (hv : validRecord (l.stamp sha256 journalId epoch r) = true) {m : Meta}
    {operations pending : Tree OperationId Bytes} {o : OperationId → Option OperationState}
    {p : OperationId → Option (UInt64 × RecoveryRecipe)}
    (hms : m.headSequence = (l.stamp sha256 journalId epoch r).sequence)
    (hmh : m.headHash = recordHash sha256 journalId (l.stamp sha256 journalId epoch r))
    (hme : m.epoch = s.metadata.epoch) (hmc : m.currentSegment = s.metadata.currentSegment)
    (ho : ∀ id, operations.get id = (o id).map OperationState.encode)
    (hp : ∀ id, pending.get id = (p id).map fun q => q.2.encode q.1) :
    Represents sha256 journalId
      { s with
        records := s.records.put (l.stamp sha256 journalId epoch r).sequence
          (recordLayout journalId (l.stamp sha256 journalId epoch r))
        events := s.events.put r.eventId (l.stamp sha256 journalId epoch r).sequence
        operations := operations
        pending := pending
        metadata := m }
      { l.extend (l.stamp sha256 journalId epoch r) with operations := o, pending := p } := by
  have hseq : (l.stamp sha256 journalId epoch r).sequence.toNat = l.entries.length + 1 :=
    Ledger.stamp_sequence hb epoch r
  obtain ⟨blocks, active, hent, hscan⟩ := h.scan
  refine ⟨(h.wellFormed.extend hb hf hv).of_entries rfl, ?_, ?_, ?_, ?_, ?_, ho, hp⟩
  · refine ⟨blocks, active ++ [l.stamp sha256 journalId epoch r], by simp [hent], ?_⟩
    refine { hscan with
      current := by rw [← hscan.current, ← hmc]
      records := ?_ }
    rw [Tree.entries_put_of_gt, hscan.records]
    · simp [keyed]
    · intro e he
      have := h.active_lt he
      show e.1.toNat < UInt64.toNat _
      omega
  · show m.headSequence.toNat = _
    rw [hms, hseq]
    simp
  · rw [hmh]
    exact (Ledger.tip_extend _ _).symm
  · rw [hme]
    exact h.epoch
  · intro e k
    have hput := s.events.get_put r.eventId e (l.stamp sha256 journalId epoch r).sequence
    show (s.events.put r.eventId _).get e = some k ↔ ∃ x ∈ l.entries ++ [_], _
    rw [hput]
    split
    · rename_i hre
      have hre := BlobKey.rank_inj.mp hre
      subst hre
      constructor
      · intro hk
        exact ⟨_, List.mem_append_right _ (List.mem_singleton.mpr rfl), rfl, Option.some.inj hk⟩
      · rintro ⟨x, hx, hxe, rfl⟩
        rcases List.mem_append.mp hx with hx | hx
        · exact absurd (List.mem_map.mpr ⟨x, hx, hxe⟩) hf
        · rw [List.mem_singleton.mp hx]
    · rename_i hre
      rw [h.events]
      constructor
      · rintro ⟨x, hx, hxe⟩
        exact ⟨x, List.mem_append_left _ hx, hxe⟩
      · rintro ⟨x, hx, hxe, hxk⟩
        rcases List.mem_append.mp hx with hx | hx
        · exact ⟨x, hx, hxe, hxk⟩
        · rw [List.mem_singleton.mp hx] at hxe
          exact absurd (congrArg BlobKey.rank hxe) hre

theorem sealed_front {next : UInt64}
    {handoff : UInt64 × Digest} {copied rest : List (UInt64 × Bytes)}
    (hsplit : s.records.entries = copied ++ rest) (hne : copied ≠ [])
    (hnext : next.toNat = s.metadata.currentSegment.toNat + 1) :
    Represents sha256 journalId
      { s with
        sealedSegments := s.sealedSegments.put s.metadata.currentSegment (segmentBlob copied)
        records := copied.foldl (fun t e => t.remove e.1) s.records
        segments := s.segments.put next handoff
        metadata := { s.metadata with currentSegment := next } } l := by
  obtain ⟨blocks, active, hent, hscan⟩ := h.scan
  obtain ⟨front, back, hactive, hfront, hback⟩ :=
    List.map_eq_append_iff.mp (hscan.records.symm.trans hsplit)
  have hkeyed : keyed journalId front = copied := hfront
  refine ⟨h.wellFormed, ⟨blocks ++ [front], back, by simp [hent, hactive], ?_⟩, h.headSequence,
    h.headHash, h.epoch, h.events, h.operations, h.pending⟩
  have hput : (s.sealedSegments.put s.metadata.currentSegment (segmentBlob copied)).entries
      = s.sealedSegments.entries ++ [(s.metadata.currentSegment, segmentBlob copied)] := by
    apply Tree.entries_put_of_gt
    intro e he
    have hk : e.1.toNat ∈ List.range blocks.length := by
      rw [← hscan.keys]
      exact List.mem_map.mpr ⟨e, he, rfl⟩
    have := List.mem_range.mp hk
    show e.1.toNat < s.metadata.currentSegment.toNat
    rw [hscan.current]
    exact this
  refine ⟨?_, ?_, ?_, ?_, ?_, ?_⟩
  · intro b hb
    rcases List.mem_append.mp hb with hb | hb
    · exact hscan.nonempty b hb
    · rw [List.mem_singleton.mp hb]
      intro ha
      exact hne (by rw [← hkeyed, ha]; rfl)
  · show List.map _ (Tree.put _ _ _).entries = _
    rw [hput, List.map_append, List.map_append, hscan.blobs, ← hkeyed]
    rfl
  · show List.map _ (Tree.put _ _ _).entries = _
    rw [hput, List.map_append, hscan.keys, List.length_append, List.length_singleton,
      List.range_succ, ← hscan.current]
    rfl
  · show next.toNat = _
    rw [hnext, hscan.current, List.length_append, List.length_singleton]
  · intro k v hk
    have hk' : (s.segments.put next handoff).get k = some v := hk
    rw [Tree.get_put] at hk'
    rw [List.length_append, List.length_singleton]
    split at hk'
    · rename_i hr
      have hr' : next.toNat = k.toNat := hr
      rw [← hr', hnext, hscan.current]
    · have := hscan.segments k v hk'
      omega
  · exact (Tree.entries_foldl_remove _ _ hsplit).trans hback.symm

theorem sealed {next : UInt64} {handoff : UInt64 × Digest}
    (hne : s.records.entries ≠ []) (hnext : next.toNat = s.metadata.currentSegment.toNat + 1) :
    Represents sha256 journalId
      { s with
        sealedSegments := s.sealedSegments.put s.metadata.currentSegment
          (segmentBlob s.records.entries)
        records := s.records.entries.foldl (fun t e => t.remove e.1) s.records
        segments := s.segments.put next handoff
        metadata := { s.metadata with currentSegment := next } } l :=
  h.sealed_front (List.append_nil _).symm hne hnext

end

end Represents
end Ferrocrate.Witness

import Ferrocrate.Lib.Sha256
import Ferrocrate.Witness.Acceptance
import Ferrocrate.Witness.Checkpoint

/-! Evidence that a checkpoint list accepts: its records are numbered and linked, and each
checkpoint is bound by the record after its head. The head's hash then fixes all records
below it. -/
namespace Ferrocrate.Witness
open Lib

structure Binds (sha256 : Hasher) (cp : Checkpoint) (r : ParsedRecord) : Prop where
  sequence : checkedAdd cp.head.sequence 1 = some r.sequence
  stage : r.stage = .checkpointPublished
  action : r.action = .checkpointPublish
  digest : r.resultDigest = some (sha256 cp.encode)
  previous : r.previousHash = cp.head.hash
  epoch : r.epoch = cp.head.epoch

def BindsAt (sha256 : Hasher) (cp : Checkpoint) (evidence : List Bytes) (i : Nat) : Prop :=
  ∃ bytes d, evidence[i]? = some bytes ∧ decodeRecord bytes = .ok d ∧ Binds sha256 cp d.record

def covered (limit : UInt64) (bytes : Bytes) : Bool :=
  match decodeRecord bytes with
  | .ok d => d.record.sequence ≤ limit
  | .error _ => false

theorem asRollback_eq_ok {α : Type} {x : Except WitnessError α} {a : α} :
    asRollback x = .ok a ↔ x = .ok a := by
  cases x <;> simp [asRollback, Except.mapError]

section Step
variable {sha256 : Hasher} {checkpoints : List Checkpoint} {s s' : EvidenceState}
  {bytes : Bytes}

theorem advanceEpoch_position {v v' : StreamVerifier} {epoch : UInt64}
    (h : v.advanceEpoch epoch = .ok v') :
    v'.trust.expectedJournalId = v.trust.expectedJournalId ∧
      v'.expectedSequence = v.expectedSequence ∧ v'.previousHash = v.previousHash := by
  simp only [StreamVerifier.advanceEpoch, Except.ite_error_eq_ok, Except.ok.injEq] at h
  obtain ⟨-, rfl⟩ := h
  exact ⟨rfl, rfl, rfl⟩

theorem bindCheckpoint_eq_ok {cp : Checkpoint} {r : ParsedRecord}
    (h : bindCheckpoint sha256 s cp r = .ok s')
    (hseq : checkedAdd cp.head.sequence 1 = some r.sequence) :
    Binds sha256 cp r ∧ s'.checkpointCursor = s.checkpointCursor + 1 ∧
      s'.verifier.trust.expectedJournalId = s.verifier.trust.expectedJournalId ∧
      s'.verifier.expectedSequence = s.verifier.expectedSequence ∧
      s'.verifier.previousHash = s.verifier.previousHash := by
  simp only [bindCheckpoint, Except.ite_error_eq_ok] at h
  obtain ⟨hbinds, h⟩ := h
  simp only [not_or, not_not] at hbinds
  obtain ⟨hstage, haction, hdigest, hprevious, hepoch⟩ := hbinds
  refine ⟨⟨hseq, hstage, haction, hdigest, hprevious, hepoch⟩, ?_⟩
  split at h
  · simp only [Except.ite_error_eq_ok, Except.bind_eq_ok, asRollback_eq_ok] at h
    obtain ⟨-, v, hv, h⟩ := h
    obtain rfl := Except.ok.inj h
    exact ⟨rfl, advanceEpoch_position hv⟩
  · simp only [Except.ite_error_eq_ok, Except.ok.injEq] at h
    obtain ⟨-, rfl⟩ := h
    exact ⟨rfl, rfl, rfl, rfl⟩

theorem takeEvidence_eq_ok (h : takeEvidence sha256 checkpoints s bytes = .ok s') :
    ∃ d, decodeRecord bytes = .ok d ∧ d.journalId = s.verifier.trust.expectedJournalId ∧
      d.record.sequence = s.verifier.expectedSequence ∧
      d.record.previousHash = s.verifier.previousHash ∧
      s'.verifier.trust.expectedJournalId = s.verifier.trust.expectedJournalId ∧
      checkedAdd s.verifier.expectedSequence 1 = some s'.verifier.expectedSequence ∧
      s'.verifier.previousHash = hashRecord sha256 d.bytes ∧
      (s'.checkpointCursor = s.checkpointCursor ∨ s'.checkpointCursor = s.checkpointCursor + 1 ∧
        ∃ cp, checkpoints[s.checkpointCursor]? = some cp ∧ Binds sha256 cp d.record) := by
  simp only [takeEvidence, Except.bind_eq_ok, asRollback_eq_ok] at h
  obtain ⟨d, hd, s₁, hs₁, v, hv, h⟩ := h
  obtain rfl := Except.ok.inj h
  obtain ⟨-, d', progress, next, hd', hj, -, hseq, -, hprev, -, -, hnext, rfl⟩ :=
    StreamVerifier.push_eq_ok_iff.mp hv
  obtain rfl := Except.ok.inj (hd.symm.trans hd')
  have hkept : ∀ {c : Prop} [Decidable c],
      (if c then Except.error CheckpointError.rollback else Except.ok s) = Except.ok s₁ →
      s₁ = s := by
    intro c _ hc
    rw [Except.ite_error_eq_ok] at hc
    exact (Except.ok.inj hc.2).symm
  rw [checkPosition] at hs₁
  split at hs₁
  · rename_i cp hcp
    split at hs₁
    · rename_i hbind
      obtain ⟨hbinds, hcursor, hjournal, hsequence, hprevious⟩ := bindCheckpoint_eq_ok hs₁ hbind
      rw [hjournal] at hj
      rw [hsequence] at hseq hnext
      rw [hprevious] at hprev
      exact ⟨d, hd, hj, hseq, hprev, hjournal, hnext, rfl, .inr ⟨hcursor, cp, hcp, hbinds⟩⟩
    · obtain rfl := hkept hs₁
      exact ⟨d, hd, hj, hseq, hprev, rfl, hnext, rfl, .inl rfl⟩
  · obtain rfl := hkept hs₁
    exact ⟨d, hd, hj, hseq, hprev, rfl, hnext, rfl, .inl rfl⟩

end Step

structure Gathered (sha256 : Hasher) (checkpoints : List Checkpoint) (journalId : Id)
    (first : UInt64) (start : Digest) (ds : List DecodedRecord) (s : EvidenceState) : Prop where
  journal : ∀ d ∈ ds, d.journalId = journalId
  sequence : ∀ i d, ds[i]? = some d → d.record.sequence.toNat = first.toNat + i
  linked : HashChain.Linked (fun d => d.record.previousHash) (fun d => hashRecord sha256 d.bytes)
    start ds
  trusted : s.verifier.trust.expectedJournalId = journalId
  expected : s.verifier.expectedSequence.toNat = first.toNat + ds.length
  previous : s.verifier.previousHash = HashChain.tip (fun d => hashRecord sha256 d.bytes) start ds
  bound : ∀ k cp, k < s.checkpointCursor → checkpoints[k]? = some cp →
    ∃ d ∈ ds, Binds sha256 cp d.record

section Run
variable {sha256 : Hasher} {checkpoints : List Checkpoint} {journalId : Id}
  {first : UInt64} {start : Digest} {ds : List DecodedRecord} {s s' : EvidenceState}

theorem Gathered.step (h : Gathered sha256 checkpoints journalId first start ds s) {bytes : Bytes}
    (hs : takeEvidence sha256 checkpoints s bytes = .ok s') :
    ∃ d, decodeRecord bytes = .ok d ∧
      Gathered sha256 checkpoints journalId first start (ds ++ [d]) s' := by
  obtain ⟨d, hd, hj, hseq, hprev, htrust, hnext, hhash, hcursor⟩ := takeEvidence_eq_ok hs
  refine ⟨d, hd, ⟨?_, ?_, h.linked.append_singleton _ _ (hprev.trans h.previous),
    htrust.trans h.trusted, ?_, ?_, ?_⟩⟩
  · intro x hx
    rcases List.mem_append.mp hx with hx | hx
    · exact h.journal x hx
    · rw [List.mem_singleton.mp hx, hj, h.trusted]
  · intro i x hx
    rcases Nat.lt_trichotomy i ds.length with hi | rfl | hi
    · rw [List.getElem?_append_left hi] at hx
      exact h.sequence i x hx
    · rw [List.getElem?_append_right (Nat.le_refl _), Nat.sub_self, List.getElem?_cons_zero] at hx
      rw [← Option.some.inj hx, hseq, h.expected]
    · rw [List.getElem?_eq_none (by simp; omega)] at hx
      cases hx
  · rw [toNat_checkedAdd hnext, h.expected, List.length_append, List.length_singleton, Nat.add_assoc]
  · rw [hhash, HashChain.tip_append_singleton]
  · intro k cp hk hcp
    have hold : k < s.checkpointCursor → ∃ x ∈ ds ++ [d], Binds sha256 cp x.record := by
      intro hk
      obtain ⟨x, hx, hbinds⟩ := h.bound k cp hk hcp
      exact ⟨x, List.mem_append_left _ hx, hbinds⟩
    rcases hcursor with heq | ⟨heq, cp', hcp', hbinds⟩
    · rw [heq] at hk
      exact hold hk
    · rw [heq] at hk
      rcases Nat.lt_or_ge k s.checkpointCursor with hlt | hge
      · exact hold hlt
      · obtain rfl : k = s.checkpointCursor := by omega
        obtain rfl := Option.some.inj (hcp.symm.trans hcp')
        exact ⟨d, by simp, hbinds⟩

theorem gathered_of_foldlM {evidence : List Bytes} {trust : StreamTrust} {epoch : UInt64}
    (h : evidence.foldlM (takeEvidence sha256 checkpoints) ⟨.new trust, 0, epoch⟩ = .ok s) :
    ∃ ds, evidence.mapM decodeRecord = .ok ds ∧
      Gathered sha256 checkpoints trust.expectedJournalId trust.expectedFirstSequence
        trust.expectedPredecessorHash ds s := by
  induction evidence using List.reverseRecOn generalizing s with
  | nil =>
    obtain rfl := Except.ok.inj h
    exact ⟨[], rfl, ⟨by simp, by simp, trivial, rfl, rfl, rfl, by simp⟩⟩
  | append_singleton seen bytes ih =>
    rw [List.foldlM_append, Except.bind_eq_ok] at h
    obtain ⟨s₁, hs₁, hlast⟩ := h
    obtain ⟨ds, hds, hg⟩ := ih hs₁
    simp only [List.foldlM_cons, List.foldlM_nil, Except.bind_eq_ok] at hlast
    obtain ⟨s₂, hs₂, hok⟩ := hlast
    obtain rfl := Except.ok.inj hok
    obtain ⟨d, hd, hg'⟩ := hg.step hs₂
    exact ⟨ds ++ [d], mapM_append_singleton.mpr ⟨ds, d, hds, hd, rfl⟩, hg'⟩

end Run

variable {ds : List DecodedRecord} {evidence : List Bytes}

theorem mapM_decodeRecord_getElem?
    (h : evidence.mapM decodeRecord = .ok ds) (i : Nat) :
    evidence[i]?.map decodeRecord = ds[i]?.map Except.ok := by
  induction evidence generalizing ds i with
  | nil =>
    obtain rfl := Except.ok.inj h
    rfl
  | cons bytes evidence ih =>
    simp only [List.mapM_cons, Except.bind_eq_ok] at h
    obtain ⟨d, hd, rest, hrest, hok⟩ := h
    obtain rfl := Except.ok.inj hok
    cases i with
    | zero => simp [hd]
    | succ i => simpa using ih hrest i

theorem map_bytes_of_mapM
    (h : evidence.mapM decodeRecord = .ok ds) : ds.map (fun d => d.bytes.bytes) = evidence := by
  apply List.ext_getElem?
  intro i
  have hi := mapM_decodeRecord_getElem? h i
  rw [List.getElem?_map]
  cases hb : evidence[i]? with
  | none => simpa [hb, eq_comm] using hi
  | some bytes =>
    simp only [hb, Option.map_some] at hi
    obtain ⟨d, hd, hok⟩ := Option.map_eq_some_iff.mp hi.symm
    rw [hd, Option.map_some, (decodeRecord_spec hok.symm).2]

theorem decodeRecord_of_mem
    (h : evidence.mapM decodeRecord = .ok ds) {d : DecodedRecord} (hd : d ∈ ds) :
    decodeRecord d.bytes.bytes = .ok d ∧ d.bytes.bytes ∈ evidence := by
  obtain ⟨i, hi⟩ := List.getElem?_of_mem hd
  have hdec := mapM_decodeRecord_getElem? h i
  rw [hi, Option.map_some] at hdec
  obtain ⟨bytes, hbytes, hok⟩ := Option.map_eq_some_iff.mp hdec
  have hspec := (decodeRecord_spec hok).2
  rw [hspec]
  exact ⟨hok, List.mem_of_getElem? hbytes⟩

section Prefix
variable {sha256 : Hasher} {checkpoints : List Checkpoint} {journalId : Id}
  {first : UInt64} {start : Digest} {ds : List DecodedRecord} {s : EvidenceState}
  {evidence : List Bytes} {cp : Checkpoint} {d : DecodedRecord} {i : Nat}

section
variable (h : Gathered sha256 checkpoints journalId first start ds s)
include h

theorem Gathered.position (hi : ds[i]? = some d) (hb : Binds sha256 cp d.record) :
    first.toNat + i = cp.head.sequence.toNat + 1 := by
  rw [← h.sequence i d hi, toNat_checkedAdd hb.sequence]

theorem Gathered.tip_eq (hi : ds[i]? = some d) (hb : Binds sha256 cp d.record) :
    HashChain.tip (fun d => hashRecord sha256 d.bytes) start (ds.take i) = cp.head.hash := by
  rw [← h.linked.link_eq _ _ hi, hb.previous]

theorem Gathered.covered_eq_take
    (hds : evidence.mapM decodeRecord = .ok ds)
    (hi : ds[i]? = some d) (hb : Binds sha256 cp d.record) :
    evidence.filter (covered cp.head.sequence) = evidence.take i := by
  have hposition := h.position hi hb
  have hcovered : ∀ k bytes, evidence[k]? = some bytes →
      (covered cp.head.sequence bytes = true ↔ k < i) := by
    intro k bytes hk
    have hdec := mapM_decodeRecord_getElem? hds k
    rw [hk, Option.map_some] at hdec
    obtain ⟨x, hx, hok⟩ := Option.map_eq_some_iff.mp hdec.symm
    simp only [covered, ← hok, decide_eq_true_eq]
    rw [UInt64.le_iff_toNat_le, h.sequence k x hx]
    omega
  conv_lhs => rw [← List.take_append_drop i evidence]
  rw [List.filter_append]
  have htake : (evidence.take i).filter (covered cp.head.sequence) = evidence.take i := by
    rw [List.filter_eq_self]
    intro bytes hmem
    obtain ⟨k, hk, hget⟩ := List.mem_take_iff_getElem.mp hmem
    have hk' : evidence[k]? = some bytes := by
      rw [← hget]
      exact List.getElem?_eq_getElem _
    exact (hcovered k bytes hk').mpr (by omega)
  have hdrop : (evidence.drop i).filter (covered cp.head.sequence) = [] := by
    rw [List.filter_eq_nil_iff]
    intro bytes hmem
    obtain ⟨k, hk⟩ := List.getElem?_of_mem hmem
    rw [List.getElem?_drop] at hk
    rw [hcovered _ bytes hk]
    omega
  rw [htake, hdrop, List.append_nil]

theorem Gathered.take_eq {ds' : List DecodedRecord} {s' : EvidenceState} {evidence' : List Bytes}
    (h' : Gathered sha256 checkpoints journalId first start ds' s')
    (hds : evidence.mapM decodeRecord = .ok ds) (hds' : evidence'.mapM decodeRecord = .ok ds')
    (hinj : ∀ b ∈ evidence, ∀ b' ∈ evidence', hashRecord sha256 ⟨journalId, b⟩
      = hashRecord sha256 ⟨journalId, b'⟩ → b = b') {d d' : DecodedRecord}
    (hi : ds[i]? = some d) (hi' : ds'[i]? = some d') (hb : Binds sha256 cp d.record)
    (hb' : Binds sha256 cp d'.record) : ds.take i = ds'.take i := by
  have hlinked := h.linked
  have hlinked' := h'.linked
  rw [← List.take_append_drop i ds, HashChain.linked_append] at hlinked
  rw [← List.take_append_drop i ds', HashChain.linked_append] at hlinked'
  have hlt := (List.getElem?_eq_some_iff.mp hi).1
  have hlt' := (List.getElem?_eq_some_iff.mp hi').1
  refine hlinked.1.eq_of_tip_eq _ _ hlinked'.1 ?_ ?_ ((h.tip_eq hi hb).trans (h'.tip_eq hi' hb').symm)
  · rw [List.length_take_of_le (by omega), List.length_take_of_le (by omega)]
  · intro x hx y hy hxy
    have hx := List.mem_of_mem_take hx
    have hy := List.mem_of_mem_take hy
    obtain ⟨hxok, hxmem⟩ := decodeRecord_of_mem hds hx
    obtain ⟨hyok, hymem⟩ := decodeRecord_of_mem hds' hy
    rw [(decodeRecord_spec hxok).2, (decodeRecord_spec hyok).2, h.journal x hx, h'.journal y hy]
      at hxy
    have hbytes := hinj _ hxmem _ hymem hxy
    rw [hbytes, hyok] at hxok
    exact (Except.ok.inj hxok).symm

theorem Gathered.binds_unique
    (hds : evidence.mapM decodeRecord = .ok ds) {k : Nat} (hk : k < s.checkpointCursor)
    (hcp : checkpoints[k]? = some cp) : ∃! i, BindsAt sha256 cp evidence i := by
  have hat : ∀ i, BindsAt sha256 cp evidence i ↔ ∃ d, ds[i]? = some d ∧ Binds sha256 cp d.record := by
    intro i
    have hi := mapM_decodeRecord_getElem? hds i
    constructor
    · rintro ⟨bytes, d, hbytes, hok, hb⟩
      rw [hbytes, Option.map_some, hok] at hi
      obtain ⟨x, hx, hxd⟩ := Option.map_eq_some_iff.mp hi.symm
      exact ⟨x, hx, by rw [Except.ok.inj hxd]; exact hb⟩
    · rintro ⟨d, hd, hb⟩
      rw [hd, Option.map_some] at hi
      obtain ⟨bytes, hbytes, hok⟩ := Option.map_eq_some_iff.mp hi
      exact ⟨bytes, d, hbytes, hok, hb⟩
  obtain ⟨d, hmem, hb⟩ := h.bound k cp hk hcp
  obtain ⟨i, hi⟩ := List.getElem?_of_mem hmem
  refine ⟨i, (hat i).mpr ⟨d, hi, hb⟩, ?_⟩
  intro i' hi'
  obtain ⟨d', hd', hb'⟩ := (hat i').mp hi'
  have hpos := h.position hi hb
  have hpos' := h.position hd' hb'
  omega

end

end Prefix

section Verified
variable {sha256 : Hasher} {ed : Ed25519} {trust : TrustBundle ed}
  {checkpoints : List Checkpoint} {evidence : List Bytes} {nowSecs maxAge : UInt64}
  {report : VerificationReport}

theorem verifyIter_gathered
    (h : verifyIter sha256 ed trust evidence checkpoints nowSecs maxAge = .ok report) :
    ∃ ds s, evidence.mapM decodeRecord = .ok ds ∧ s.checkpointCursor = checkpoints.length ∧
      Gathered sha256 checkpoints trust.journalId trust.firstSequence trust.predecessorHash ds s := by
  unfold verifyIter at h
  split at h
  · cases h
  simp only [Except.ite_error_eq_ok, Except.bind_eq_ok] at h
  obtain ⟨-, -, keys, -, -, h⟩ := h
  split at h
  · cases h
  simp only [Except.ite_error_eq_ok, Except.bind_eq_ok, verifyStreaming, asRollback_eq_ok] at h
  obtain ⟨-, _, ⟨-, s, hs, hcursor, -⟩, -⟩ := h
  obtain ⟨ds, hds, hg⟩ := gathered_of_foldlM hs
  exact ⟨ds, s, hds, not_not.mp hcursor, hg⟩

end Verified

/-- Two evidence streams that the same checkpoints accept are the same up to the head of the
last checkpoint, and each checkpoint is bound by exactly one record of each: the record hash
only has to separate the records of the two streams. -/
theorem verifyIter_tamper_evident (sha256 : Hasher) (ed : Ed25519) (trust : TrustBundle ed)
    (checkpoints : List Checkpoint) (e₁ e₂ : List Bytes) (now₁ age₁ now₂ age₂ : UInt64)
    (report₁ report₂ : VerificationReport)
    (h₁ : verifyIter sha256 ed trust e₁ checkpoints now₁ age₁ = .ok report₁)
    (h₂ : verifyIter sha256 ed trust e₂ checkpoints now₂ age₂ = .ok report₂)
    (hinj : ∀ b₁ ∈ e₁, ∀ b₂ ∈ e₂, hashRecord sha256 ⟨trust.journalId, b₁⟩
      = hashRecord sha256 ⟨trust.journalId, b₂⟩ → b₁ = b₂) :
    (∀ last, checkpoints.getLast? = some last →
      e₁.filter (covered last.head.sequence) = e₂.filter (covered last.head.sequence)) ∧
    ∀ cp ∈ checkpoints, (∃! i, BindsAt sha256 cp e₁ i) ∧ ∃! i, BindsAt sha256 cp e₂ i := by
  obtain ⟨ds₁, s₁, hds₁, hcursor₁, hg₁⟩ := verifyIter_gathered h₁
  obtain ⟨ds₂, s₂, hds₂, hcursor₂, hg₂⟩ := verifyIter_gathered h₂
  refine ⟨?_, ?_⟩
  · intro last hlast
    rw [List.getLast?_eq_getElem?] at hlast
    have hpos : 0 < checkpoints.length := by
      obtain ⟨hlt, -⟩ := List.getElem?_eq_some_iff.mp hlast
      omega
    obtain ⟨d₁, hmem₁, hb₁⟩ := hg₁.bound _ last (by omega) hlast
    obtain ⟨d₂, hmem₂, hb₂⟩ := hg₂.bound _ last (by omega) hlast
    obtain ⟨i, hi₁⟩ := List.getElem?_of_mem hmem₁
    obtain ⟨i₂, hi₂⟩ := List.getElem?_of_mem hmem₂
    -- both streams count from the same first sequence, so both bind at one position
    obtain rfl : i = i₂ := by
      have hpos₁ := hg₁.position hi₁ hb₁
      have hpos₂ := hg₂.position hi₂ hb₂
      omega
    rw [hg₁.covered_eq_take hds₁ hi₁ hb₁, hg₂.covered_eq_take hds₂ hi₂ hb₂,
      ← map_bytes_of_mapM hds₁, ← map_bytes_of_mapM hds₂, ← List.map_take, ← List.map_take]
    rw [hg₁.take_eq hg₂ hds₁ hds₂ hinj hi₁ hi₂ hb₁ hb₂]
  · intro cp hcp
    obtain ⟨k, hk⟩ := List.getElem?_of_mem hcp
    have hlt : k < checkpoints.length := (List.getElem?_eq_some_iff.mp hk).1
    exact ⟨hg₁.binds_unique hds₁ (by omega) hk, hg₂.binds_unique hds₂ (by omega) hk⟩

def recordedHead : FlushedHead :=
  ⟨.zero 16, 1, 1, hashRecord Sha256.sha256 ⟨.zero 16,
    recordLayout (.zero 16) (plainRecord (.fill 16 7) (.fill 16 1) .checkpointPublished)⟩⟩

def recordedKey : FixedBytes 32 :=
  .ofNat 32 0xd75a980182b10ab7d54bfed3c964073a0ee172f3daa62325af021a68f707511a

def recordedCheckpoint : Checkpoint where
  head := recordedHead
  firstSequence := 1
  schemaVersion := 2
  hashAlgorithm := 1
  createdAtSecs := 1
  kind := .periodic
  keyId := Sha256.sha256 recordedKey.val
  publicKey := recordedKey
  previousEpoch := 0
  previousCheckpointDigest := .zero 32
  signature := ⟨toBe 64 0xe33d95a377e1bcc8ab517556cc2ff40569c0e4dbb5cb163cd7f84593562c6afbb49071c19c9d7683e5f38c365bf42e0c6a6883aa9afba9df0cd029f02e6b4906, length_toBe _ _⟩
  secondarySignature := none

def recordedScheme : Ed25519 :=
  .recorded recordedKey [(recordedCheckpoint.payload, recordedCheckpoint.signature)]

def recordedEvidence : List Bytes :=
  let binding := { plainRecord (.fill 16 7) (.fill 16 2) .checkpointPublished with
    sequence := 2
    previousHash := recordedHead.hash
    resultDigest := some (Sha256.sha256 recordedCheckpoint.encode) }
  let later := { plainRecord (.fill 16 7) (.fill 16 3) .checkpointPublished with
    sequence := 3
    previousHash := hashRecord Sha256.sha256 ⟨.zero 16, recordLayout (.zero 16) binding⟩ }
  [plainRecord (.fill 16 7) (.fill 16 1) .checkpointPublished, binding, later].map
    (recordLayout (.zero 16))

theorem verifyIter_tamper_evident_recorded :
    (recordedEvidence.take 2).filter (covered 1) = recordedEvidence.filter (covered 1) ∧
      ∃! i, BindsAt Sha256.sha256 recordedCheckpoint recordedEvidence i := by
  have hrun : ∀ evidence ∈ [recordedEvidence.take 2, recordedEvidence],
      (verifyIter Sha256.sha256 recordedScheme (.new recordedScheme (.zero 16) recordedKey) evidence
        [recordedCheckpoint] 1 0).toBool = true := by
    unfold recordedEvidence recordedScheme recordedCheckpoint recordedHead
    rw [Sha256.sha256_eq_unrolled]
    decide +kernel
  have hsep : ∀ b₁ ∈ recordedEvidence.take 2, ∀ b₂ ∈ recordedEvidence, b₁ = b₂ ∨
      hashRecord Sha256.sha256 ⟨.zero 16, b₁⟩ ≠ hashRecord Sha256.sha256 ⟨.zero 16, b₂⟩ := by
    unfold recordedEvidence recordedCheckpoint recordedHead
    rw [Sha256.sha256_eq_unrolled]
    decide +kernel
  have hok : ∀ {x : Except CheckpointError VerificationReport}, x.toBool = true →
      ∃ report, x = .ok report := by
    rintro (_ | report) hx
    · cases hx
    · exact ⟨report, rfl⟩
  obtain ⟨report₁, h₁⟩ := hok (hrun _ List.mem_cons_self)
  obtain ⟨report₂, h₂⟩ := hok (hrun recordedEvidence (by simp))
  have h := verifyIter_tamper_evident _ _ _ _ _ _ _ _ _ _ _ _ h₁ h₂
    (fun b₁ hb₁ b₂ hb₂ he => (hsep b₁ hb₁ b₂ hb₂).resolve_right (fun hne => hne he))
  exact ⟨h.1 recordedCheckpoint rfl, (h.2 recordedCheckpoint (by simp)).2⟩

end Ferrocrate.Witness

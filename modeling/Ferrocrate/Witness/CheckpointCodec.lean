import Ferrocrate.Witness.Coordinator

/-! Reading back what the coordinator wrote: the artifact of a signed checkpoint, and the
sidecar of a pending binding. -/
namespace Ferrocrate.Witness
open Lib Lib.Reader

namespace Checkpoint

theorem expectBytes_bind {β : Type} (expected rest : Bytes) (f : Unit → Reader CheckpointError β) :
    (expectBytes expected >>= f) (expected ++ rest) = f () rest := by
  refine bind_of_ok ?_
  rw [expectBytes, bind_of_ok (Reader.take_append _ expected rest rfl), if_pos rfl]
  rfl

theorem kindFrom_code (k : CheckpointKind) : kindFrom k.code = .ok k := by cases k <;> rfl

theorem secondary_reads : Reads secondary putFixedOptional := by
  intro signature rest
  cases signature with
  | none => rfl
  | some signature =>
    have htag : Reader.u8 CheckpointError.invalidArtifact (1 :: (signature.val ++ rest))
        = .ok (1, signature.val ++ rest) := rfl
    have hfixed := Reader.fixed_reads CheckpointError.invalidArtifact 64 signature rest
    exact (bind_of_ok htag).trans ((bind_of_ok hfixed).trans rfl)

variable {cp : Checkpoint}

theorem fields_body (h : cp.WellFormed) : fields cp.body = .ok (cp, []) := by
  have hlast := secondary_reads cp.secondarySignature []
  rw [List.append_nil] at hlast
  have hkind : ∀ rest, (liftM (kindFrom cp.kind.code) : Reader CheckpointError CheckpointKind) rest
      = .ok (cp.kind, rest) := by
    intro rest
    rw [kindFrom_code]
    rfl
  simp only [fields, body, payload, List.append_assoc, h.schema, h.algorithm]
  simp only [expectBytes_bind, bind_of_ok (Reader.u8_reads _ _ _), bind_of_ok (hkind _),
    bind_of_ok (Reader.fixed_reads CheckpointError.invalidArtifact _ _ _),
    bind_of_ok (Reader.u64_reads CheckpointError.invalidArtifact _ _), bind_of_ok hlast]
  rw [← h.schema, ← h.algorithm]
  rfl

theorem length_checkpointDomain : checkpointDomain.length = 24 := by decide +kernel

theorem length_checkpointMagic : checkpointMagic.length = 8 := by decide +kernel

theorem length_body_le (cp : Checkpoint) : cp.body.length ≤ 341 := by
  have hsecond := length_putFixedOptional_le cp.secondarySignature
  simp only [body, payload, List.length_append, List.length_cons, List.length_nil,
    length_checkpointDomain, FixedBytes.length_val, length_u64Be]
  omega

theorem length_encode (cp : Checkpoint) : cp.encode.length = cp.body.length + 12 := by
  simp only [encode, List.length_append, length_checkpointMagic, length_u32Be]
  omega

theorem length_encode_le (cp : Checkpoint) : cp.encode.length ≤ maxCheckpointBytes := by
  have hbody := cp.length_body_le
  rw [length_encode]
  simp only [maxCheckpointBytes]
  omega

theorem decode_encode (h : cp.WellFormed) : decode cp.encode = .ok cp := by
  have hbody := cp.length_body_le
  have hlen := cp.length_encode
  have hmagic : cp.encode.take 8 = checkpointMagic := by
    rw [encode, ← length_checkpointMagic, List.take_left]
  have hdrop : cp.encode.drop 8 = u32Be cp.body.length ++ cp.body := by
    rw [encode, ← length_checkpointMagic, List.drop_left]
  have hdeclared : (cp.encode.drop 8).take 4 = u32Be cp.body.length := by
    rw [hdrop]
    exact List.take_left' (length_u32Be _)
  have hrest : cp.encode.drop 12 = cp.body := by
    rw [show 12 = 8 + 4 from rfl, ← List.drop_drop, hdrop]
    exact List.drop_left' (length_u32Be _)
  have hwhole : Reader.whole fields .invalidArtifact cp.body = .ok cp := by
    simp [Reader.whole, fields_body h, bind, Except.bind]
  have hbound := cp.length_encode_le
  rw [decode, if_neg (by simp only [hmagic, ne_eq, not_true, or_false]; omega), hdeclared,
    if_neg (by rw [ofBe_u32Be (by omega), hlen]; omega), hrest, hwhole]
  simp [bind, Except.bind, h.rotation]

theorem decode_wellFormed {bytes : Bytes} (h : decode bytes = .ok cp) :
    cp.WellFormed := by
  simp only [decode, Except.ite_error_eq_ok, Except.bind_eq_ok] at h
  obtain ⟨-, -, read, hread, hrotation, h⟩ := h
  obtain rfl := Except.ok.inj h
  have hschema : read.schemaVersion = 2 ∧ read.hashAlgorithm = 1 := by
    simp only [Reader.whole, Except.bind_eq_ok] at hread
    obtain ⟨⟨cp, rest⟩, hfields, hread⟩ := hread
    simp only [fields, bind_eq_ok] at hfields
    obtain ⟨_, _, -, _, _, -, _, _, -, _, _, -, _, _, -, _, _, -, _, _, -, _, _, -, _, _, -, _, _, -,
      _, _, -, _, _, -, _, _, -, _, _, -, _, _, -, _, _, -, _, _, -, _, _, -, hfields⟩ := hfields
    obtain ⟨rfl, -⟩ := Prod.mk.inj (Except.ok.inj hfields)
    split at hread
    · obtain rfl := Except.ok.inj hread
      exact ⟨rfl, rfl⟩
    · cases hread
  exact ⟨hschema.1, hschema.2, not_not.mp hrotation⟩

section Signing
variable {sha256 : Hasher} {ed : Ed25519} {head : FlushedHead} {now : UInt64}
  {key : ed.SigningKey} {predecessor cp : Checkpoint}

theorem signAfter_spec
    (h : signAfter sha256 ed head now predecessor key = .ok cp) : cp.head = head ∧ cp.WellFormed := by
  simp only [signAfter, sign, Except.ite_error_eq_ok, Except.bind_eq_ok] at h
  obtain ⟨-, _, ⟨-, hsigned⟩, h⟩ := h
  obtain rfl := Except.ok.inj hsigned
  obtain rfl := Except.ok.inj h
  exact ⟨rfl, rfl, rfl, rfl⟩

theorem sign_spec {cp : Checkpoint} {kind : CheckpointKind}
    (h : sign sha256 ed head now key kind = .ok cp) : cp.head = head ∧ cp.WellFormed := by
  simp only [sign, Except.ite_error_eq_ok, ne_eq, not_not] at h
  obtain ⟨rfl, h⟩ := h
  obtain rfl := Except.ok.inj h
  exact ⟨rfl, rfl, rfl, rfl⟩

theorem rotateAfter_spec (predecessor : Checkpoint) (old new : ed.SigningKey) :
    (rotateAfter sha256 ed head now predecessor old new).head = head ∧
      (rotateAfter sha256 ed head now predecessor old new).WellFormed :=
  ⟨rfl, rfl, rfl, rfl⟩

theorem trustResetAfter_spec
    (h : trustResetAfter sha256 ed head now predecessor key = .ok cp) :
    cp.head = head ∧ cp.WellFormed := by
  simp only [trustResetAfter, trustReset, Except.ite_error_eq_ok, Except.bind_eq_ok] at h
  obtain ⟨_, ⟨-, hsigned⟩, h⟩ := h
  obtain rfl := Except.ok.inj hsigned
  obtain rfl := Except.ok.inj h
  exact ⟨rfl, rfl, rfl, rfl⟩

end Signing
end Checkpoint

structure PendingBinding.WellFormed (p : PendingBinding) (record : WitnessRecord) : Prop where
  checkpoint : p.checkpoint.WellFormed
  valid : validRecord record = true
  bytes : p.recordBytes = recordLayout p.checkpoint.head.journalId record
  eventId : p.eventId = record.eventId
  epoch : p.expectedEpoch = record.epoch
  sequence : p.expectedSequence = record.sequence

variable {record : WitnessRecord}

theorem PendingBinding.new_eq_ok {cp : Checkpoint} {p : PendingBinding} :
    PendingBinding.new cp record = .ok p ↔ validRecord record = true ∧
      p = ⟨cp, record.eventId, record.epoch, record.sequence,
        recordLayout cp.head.journalId record, .prepared, .retryable⟩ := by
  by_cases hv : validRecord record = true
  · simp [PendingBinding.new, encodeRecord_eq hv, hv, eq_comm]
  · refine ⟨fun h => ?_, fun h => absurd h.1 hv⟩
    rw [PendingBinding.new] at h
    split at h
    · cases h
    · rename_i hok
      exact absurd ((encodeRecord_ok_iff _ _ _).mp hok).1 hv

theorem PendingBinding.wellFormed_new {cp : Checkpoint}
    {p : PendingBinding} (h : PendingBinding.new cp record = .ok p) (hcp : cp.WellFormed) :
    p.WellFormed record := by
  obtain ⟨hv, rfl⟩ := PendingBinding.new_eq_ok.mp h
  exact ⟨hcp, hv, rfl, rfl, rfl, rfl⟩

section Sidecar
variable {sha256 : Hasher} {p : PendingBinding} {record : WitnessRecord}

theorem length_pendingMagic : pendingMagic.length = 8 := by decide +kernel

theorem length_pendingBody (p : PendingBinding) :
    (pendingBody p).length = 18 + p.checkpoint.encode.length + p.recordBytes.length := by
  simp only [pendingBody, List.length_append, List.length_cons, List.length_nil,
    length_pendingMagic, length_u32Be]
  omega

theorem pendingState_ofCode (x : PendingState) : PendingState.ofCode x.code = .ok x := by
  cases x <;> rfl

theorem recoverability_ofCode (x : Recoverability) : Recoverability.ofCode x.code = .ok x := by
  cases x <;> rfl

theorem encodePending_drop (sha256 : Hasher) (p : PendingBinding) :
    (encodePending sha256 p).drop 8 = p.state.code :: p.recoverability.code ::
      (u32Be p.checkpoint.encode.length ++ (u32Be p.recordBytes.length ++ (p.checkpoint.encode
        ++ (p.recordBytes ++ (sha256 (pendingBody p)).val)))) := by
  rw [encodePending, pendingBody, List.append_assoc, ← length_pendingMagic, List.drop_left]
  simp only [List.append_assoc, List.cons_append, List.nil_append]

theorem length_encodePending (sha256 : Hasher) (p : PendingBinding) :
    (encodePending sha256 p).length
      = 18 + p.checkpoint.encode.length + p.recordBytes.length + 32 := by
  rw [encodePending, List.length_append, length_pendingBody, FixedBytes.length_val]

theorem length_encodePending_le (sha256 : Hasher) (h : p.WellFormed record) :
    (encodePending sha256 p).length ≤ maxPendingBytes := by
  have hrecord := length_recordLayout_le p.checkpoint.head.journalId record
  have hcp := p.checkpoint.length_encode_le
  rw [length_encodePending, h.bytes]
  simp only [maxPendingBytes, maxRecordBytes]
  omega

theorem decodePending_encodePending (sha256 : Hasher) (h : p.WellFormed record) :
    decodePending sha256 (encodePending sha256 p) = .ok p := by
  have hlen := length_encodePending sha256 p
  have hmax := length_encodePending_le sha256 h
  have hrecord := length_recordLayout_le p.checkpoint.head.journalId record
  have hcp := p.checkpoint.length_encode_le
  have h8 := encodePending_drop sha256 p
  have h10 : (encodePending sha256 p).drop 10 = u32Be p.checkpoint.encode.length
      ++ (u32Be p.recordBytes.length ++ (p.checkpoint.encode
        ++ (p.recordBytes ++ (sha256 (pendingBody p)).val))) := by
    rw [show 10 = 8 + 2 from rfl, ← List.drop_drop, h8]
    rfl
  have h14 : (encodePending sha256 p).drop 14 = u32Be p.recordBytes.length
      ++ (p.checkpoint.encode ++ (p.recordBytes ++ (sha256 (pendingBody p)).val)) := by
    rw [show 14 = 10 + 4 from rfl, ← List.drop_drop, h10]
    exact List.drop_left' (length_u32Be _)
  have h18 : (encodePending sha256 p).drop 18
      = p.checkpoint.encode ++ (p.recordBytes ++ (sha256 (pendingBody p)).val) := by
    rw [show 18 = 14 + 4 from rfl, ← List.drop_drop, h14]
    exact List.drop_left' (length_u32Be _)
  have hmagic : (encodePending sha256 p).take 8 = pendingMagic := by
    rw [encodePending, pendingBody, List.append_assoc, ← length_pendingMagic, List.take_left]
  have hbyte : ∀ i, (encodePending sha256 p).getD (8 + i) 0
      = ((encodePending sha256 p).drop 8).getD i 0 := by
    intro i
    rw [List.getD_eq_getElem?_getD, List.getD_eq_getElem?_getD, List.getElem?_drop]
  have hbody : (encodePending sha256 p).take
      (18 + p.checkpoint.encode.length + p.recordBytes.length) = pendingBody p :=
    List.take_left' (length_pendingBody p)
  have hsum : (encodePending sha256 p).drop
      (18 + p.checkpoint.encode.length + p.recordBytes.length) = (sha256 (pendingBody p)).val :=
    List.drop_left' (length_pendingBody p)
  have hcpLen : ofBe (((encodePending sha256 p).drop 10).take 4) = p.checkpoint.encode.length := by
    rw [h10, List.take_left' (length_u32Be _)]
    exact ofBe_u32Be (by simp only [maxCheckpointBytes] at hcp; omega)
  have hrecordLen : ofBe (((encodePending sha256 p).drop 14).take 4) = p.recordBytes.length := by
    rw [h14, List.take_left' (length_u32Be _), h.bytes]
    exact ofBe_u32Be (by omega)
  have hrecordBytes : ((encodePending sha256 p).drop (18 + p.checkpoint.encode.length)).take
      p.recordBytes.length = p.recordBytes := by
    rw [← List.drop_drop, h18, List.drop_left, List.take_left]
  have hnew : PendingBinding.new p.checkpoint record
      = .ok { p with state := .prepared, recoverability := .retryable } := by
    rw [PendingBinding.new_eq_ok, ← h.bytes, ← h.eventId, ← h.epoch, ← h.sequence]
    exact ⟨h.valid, rfl⟩
  have hdecoded : decodeRecord p.recordBytes
      = .ok (decodedEntry p.checkpoint.head.journalId record) := by
    rw [h.bytes]
    exact decodeRecord_recordLayout h.valid
  rw [decodePending, if_neg (by simp only [hmagic, ne_eq, not_true, false_or]; omega),
    show (8 : Nat) = 8 + 0 from rfl, hbyte 0, show 9 = 8 + 1 from rfl, hbyte 1, h8]
  simp only [List.getD_cons_zero, List.getD_cons_succ, pendingState_ofCode, recoverability_ofCode,
    hcpLen, hrecordLen, hbody, hsum, hlen, ne_eq, not_true, or_self, if_false, h18, List.take_left,
    hrecordBytes, Checkpoint.decode_encode h.checkpoint, hdecoded, Except.mapError, bind, Except.bind,
    decodedEntry, hnew]

theorem decodePending_wellFormed {bytes : Bytes} (h : decodePending sha256 bytes = .ok p) :
    ∃ record, p.WellFormed record := by
  simp only [decodePending, Except.ite_error_eq_ok, Except.bind_eq_ok] at h
  obtain ⟨-, state, -, recoverability, -, -, cp, hcp, decoded, -, expected, hnew, -, h⟩ := h
  obtain rfl := Except.ok.inj h
  have hw := PendingBinding.wellFormed_new hnew (Checkpoint.decode_wellFormed hcp)
  exact ⟨decoded.record, { hw with }⟩

end Sidecar

end Ferrocrate.Witness

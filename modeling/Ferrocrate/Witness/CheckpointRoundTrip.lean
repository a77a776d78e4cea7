import Ferrocrate.Lib.Codec
import Ferrocrate.Witness.CheckpointCodec

/-! The artifact of a checkpoint and the sidecar of a pending binding are codecs: whatever the
signing functions of `witness/checkpoint.rs` make comes back, and nothing else is read. -/
namespace Ferrocrate.Witness
open Lib Lib.Reader

namespace Checkpoint

theorem expectBytes_exact {expected bytes rest : Bytes} {u : Unit}
    (h : expectBytes expected bytes = .ok (u, rest)) : bytes = expected ++ rest := by
  simp only [expectBytes, bind_eq_ok] at h
  obtain ⟨taken, mid, htake, h⟩ := h
  have hbytes := take_exact htake
  split at h
  next heq =>
    cases h
    rw [hbytes, heq]
  next => cases h

theorem kindFrom_eq_ok {code : UInt8} {kind : CheckpointKind} {bytes rest : Bytes}
    (h : (liftM (kindFrom code) : Reader CheckpointError CheckpointKind) bytes = .ok (kind, rest)) :
    code = kind.code ∧ bytes = rest := by
  unfold kindFrom at h
  split at h <;> cases h <;> exact ⟨rfl, rfl⟩

theorem secondary_exact : Exact secondary putFixedOptional := by
  intro bytes signature rest h
  simp only [secondary, bind_eq_ok] at h
  obtain ⟨tag, mid, htag, h⟩ := h
  rw [u8_exact _ _ _ _ htag]
  split at h
  · cases h
    rfl
  · obtain ⟨signature, _, hfixed, hpure⟩ := bind_eq_ok.mp h
    cases hpure
    rw [fixed_exact _ _ _ _ _ hfixed]
    rfl
  · cases h

theorem fields_exact {bytes rest : Bytes} {cp : Checkpoint}
    (h : fields bytes = .ok (cp, rest)) : bytes = cp.body ++ rest := by
  simp only [fields, bind_eq_ok] at h
  obtain ⟨_, _, hdomain, _, _, hversion, _, _, hkindByte, _, _, hkind, _, _, hschema, _, _,
    halgorithm, _, _, hjournal, _, _, hepoch, _, _, hfirst, _, _, hsequence, _, _, hhash, _, _,
    hcreated, _, _, hprevious, _, _, hdigest, _, _, hkey, _, _, hpublic, _, _, hsignature, _, _,
    hsecond, hpure⟩ := h
  cases hpure
  obtain ⟨rfl, rfl⟩ := kindFrom_eq_ok hkind
  rw [expectBytes_exact hdomain, expectBytes_exact hversion, u8_exact _ _ _ _ hkindByte,
    expectBytes_exact hschema, expectBytes_exact halgorithm, fixed_exact _ _ _ _ _ hjournal,
    u64_exact _ _ _ _ hepoch, u64_exact _ _ _ _ hfirst, u64_exact _ _ _ _ hsequence,
    fixed_exact _ _ _ _ _ hhash, u64_exact _ _ _ _ hcreated, u64_exact _ _ _ _ hprevious,
    fixed_exact _ _ _ _ _ hdigest, fixed_exact _ _ _ _ _ hkey, fixed_exact _ _ _ _ _ hpublic,
    fixed_exact _ _ _ _ _ hsignature, secondary_exact _ _ _ hsecond]
  simp only [body, payload, List.append_assoc]

theorem decode_exact {bytes : Bytes} {cp : Checkpoint} (h : decode bytes = .ok cp) :
    cp.encode = bytes := by
  simp only [decode, Except.ite_error_eq_ok, Except.bind_eq_ok, not_or, not_lt, not_not] at h
  obtain ⟨⟨hlength, -, hmagic⟩, hdeclared, read, hread, -, h⟩ := h
  cases h
  have hexact : Exact fields body := fun _ _ _ hfields => fields_exact hfields
  have hbody : bytes.drop 12 = cp.body := whole_exact hexact hread
  have hcount : u32Be cp.body.length = (bytes.drop 8).take 4 := by
    have hfour : ((bytes.drop 8).take 4).length = 4 := by simp; omega
    have hdigits := toBe_ofBe ((bytes.drop 8).take 4)
    rw [hfour, hdeclared, ← List.length_drop, hbody] at hdigits
    exact hdigits
  have hsplit : bytes.drop 12 = (bytes.drop 8).drop 4 := by rw [List.drop_drop]
  calc cp.encode = bytes.take 8 ++ ((bytes.drop 8).take 4 ++ bytes.drop 12) := by
        rw [encode, hcount, hbody, hmagic]
    _ = bytes := by rw [hsplit, List.take_append_drop, List.take_append_drop]

section Signing
variable (sha256 : Hasher) (ed : Ed25519)

def signChunkAfter (head : FlushedHead) (firstSequence createdAtSecs : UInt64)
    (predecessor : Checkpoint) (key : ed.SigningKey) : Except CheckpointError Checkpoint :=
  if firstSequence ≤ predecessor.head.sequence ∨ firstSequence > head.sequence + 1 then
    .error .rollback
  else do
    let cp ← signAfter sha256 ed head createdAtSecs predecessor key
    let cp := { cp with firstSequence := firstSequence }
    .ok { cp with signature := ed.sign key cp.payload }

inductive Produced (cp : Checkpoint) : Prop
  | sign {head : FlushedHead} {now : UInt64} {key : ed.SigningKey} {kind : CheckpointKind}
      (h : sign sha256 ed head now key kind = .ok cp)
  | signAfter {head : FlushedHead} {now : UInt64} {predecessor : Checkpoint} {key : ed.SigningKey}
      (h : signAfter sha256 ed head now predecessor key = .ok cp)
  | signChunkAfter {head : FlushedHead} {first now : UInt64} {predecessor : Checkpoint}
      {key : ed.SigningKey} (h : signChunkAfter sha256 ed head first now predecessor key = .ok cp)
  | rotate {head : FlushedHead} {now : UInt64} {old new : ed.SigningKey}
      (h : rotate sha256 ed head now old new = cp)
  | rotateAfter {head : FlushedHead} {now : UInt64} {predecessor : Checkpoint}
      {old new : ed.SigningKey} (h : rotateAfter sha256 ed head now predecessor old new = cp)
  | trustReset {head : FlushedHead} {now previousEpoch : UInt64} {new : ed.SigningKey}
      (h : trustReset sha256 ed head now new previousEpoch = .ok cp)
  | trustResetAfter {head : FlushedHead} {now : UInt64} {predecessor : Checkpoint}
      {new : ed.SigningKey} (h : trustResetAfter sha256 ed head now predecessor new = .ok cp)

variable {sha256 ed}

theorem Produced.wellFormed {cp : Checkpoint} (h : Produced sha256 ed cp) : cp.WellFormed := by
  cases h with
  | sign h => exact (sign_spec h).2
  | signAfter h => exact (signAfter_spec h).2
  | signChunkAfter h =>
    simp only [Checkpoint.signChunkAfter, Except.ite_error_eq_ok, Except.bind_eq_ok] at h
    obtain ⟨-, after, hafter, h⟩ := h
    cases h
    have hw := (signAfter_spec hafter).2
    exact ⟨hw.schema, hw.algorithm, hw.rotation⟩
  | rotate h =>
    cases h
    exact ⟨rfl, rfl, rfl⟩
  | rotateAfter h =>
    cases h
    exact (rotateAfter_spec _ _ _).2
  | trustReset h =>
    simp only [Checkpoint.trustReset, Except.ite_error_eq_ok] at h
    obtain ⟨-, h⟩ := h
    cases h
    exact ⟨rfl, rfl, rfl⟩
  | trustResetAfter h => exact (trustResetAfter_spec h).2

end Signing
end Checkpoint

/-- Checkpoints and pending bindings come back from their durable forms, and an artifact that is
read is the durable form of what it is read as. -/
theorem checkpoint_codecs (sha256 : Hasher) (ed : Ed25519) :
    (∀ cp : Checkpoint, cp.Produced sha256 ed → Checkpoint.decode cp.encode = .ok cp) ∧
    (∀ bytes (cp : Checkpoint), Checkpoint.decode bytes = .ok cp → cp.encode = bytes) ∧
    ∀ (cp : Checkpoint) record pending state recoverability, cp.Produced sha256 ed →
      PendingBinding.new cp record = .ok pending →
      decodePending sha256 (encodePending sha256
          { pending with state := state, recoverability := recoverability })
        = .ok { pending with state := state, recoverability := recoverability } := by
  refine ⟨fun cp hcp => Checkpoint.decode_encode hcp.wellFormed,
    fun bytes cp h => Checkpoint.decode_exact h, ?_⟩
  intro cp record pending state recoverability hcp hnew
  have hw := PendingBinding.wellFormed_new hnew hcp.wellFormed
  exact decodePending_encodePending sha256 (show PendingBinding.WellFormed _ record from { hw with })

end Ferrocrate.Witness

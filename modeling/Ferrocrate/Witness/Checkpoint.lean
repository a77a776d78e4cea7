import Ferrocrate.Witness.Journal.Operations
import Ferrocrate.Witness.Verify

/-! Signed checkpoints of `witness/checkpoint.rs`, the trust a verifier starts from, and the
verification of evidence against a list of checkpoints (`witness/checkpoint_evidence.rs`). -/
namespace Ferrocrate.Witness
open Lib Lib.Reader

def checkpointDomain : Bytes := "FERROCRATE-CHECKPOINT-V2".toUTF8.toList
def checkpointMagic : Bytes := "FCHKPT02".toUTF8.toList
def maxCheckpointBytes : Nat := 1024
def maxCheckpoints : Nat := 4096

abbrev KeyId := FixedBytes 32
abbrev Signature := FixedBytes 64

structure Ed25519 where
  SigningKey : Type
  VerifyingKey : Type
  verifyingKey : SigningKey → VerifyingKey
  sign : SigningKey → Bytes → Signature
  toBytes : VerifyingKey → FixedBytes 32
  fromBytes : FixedBytes 32 → Option VerifyingKey
  verify : VerifyingKey → Bytes → Signature → Bool

def Ed25519.recorded (publicKey : FixedBytes 32) (signatures : List (Bytes × Signature)) :
    Ed25519 where
  SigningKey := Unit
  VerifyingKey := FixedBytes 32
  verifyingKey _ := publicKey
  sign _ message := (signatures.lookup message).getD (.zero 64)
  toBytes key := key
  fromBytes bytes := some bytes
  verify key message signature := key = publicKey ∧ signatures.lookup message = some signature

structure FlushedHead where
  journalId : Id
  epoch : UInt64
  sequence : UInt64
  hash : Digest
deriving DecidableEq

def FlushedHead.ofJournal (h : Journal.JournalHead) : FlushedHead :=
  ⟨h.journalId, h.epoch, h.sequence, h.hash⟩

inductive CheckpointKind where
  | periodic | rotation | trustReset
deriving DecidableEq

def CheckpointKind.code : CheckpointKind → UInt8
  | .periodic => 1 | .rotation => 2 | .trustReset => 3

structure Checkpoint where
  head : FlushedHead
  firstSequence : UInt64
  schemaVersion : UInt8
  hashAlgorithm : UInt8
  createdAtSecs : UInt64
  kind : CheckpointKind
  keyId : KeyId
  publicKey : FixedBytes 32
  previousEpoch : UInt64
  previousCheckpointDigest : Digest
  signature : Signature
  secondarySignature : Option Signature
deriving DecidableEq

inductive CheckpointError where
  | pendingExists | bindingFailed | untrusted | rollback | invalidArtifact | io
  | journal (error : JournalError)
deriving DecidableEq

namespace Checkpoint

def payload (cp : Checkpoint) : Bytes :=
  checkpointDomain ++ ([2] ++ ([cp.kind.code] ++ ([cp.schemaVersion] ++ ([cp.hashAlgorithm]
  ++ (cp.head.journalId.val ++ (u64Be cp.head.epoch ++ (u64Be cp.firstSequence
  ++ (u64Be cp.head.sequence ++ (cp.head.hash.val ++ (u64Be cp.createdAtSecs
  ++ (u64Be cp.previousEpoch ++ (cp.previousCheckpointDigest.val ++ (cp.keyId.val
  ++ cp.publicKey.val)))))))))))))

def body (cp : Checkpoint) : Bytes :=
  cp.payload ++ (cp.signature.val ++ putFixedOptional cp.secondarySignature)

def encode (cp : Checkpoint) : Bytes :=
  checkpointMagic ++ (u32Be cp.body.length ++ cp.body)

def expectBytes (expected : Bytes) : Reader CheckpointError Unit := do
  let bytes ← Reader.take .invalidArtifact expected.length
  if bytes = expected then pure () else throw .invalidArtifact

def kindFrom : UInt8 → Except CheckpointError CheckpointKind
  | 1 => .ok .periodic | 2 => .ok .rotation | 3 => .ok .trustReset
  | _ => .error .invalidArtifact

def secondary : Reader CheckpointError (Option Signature) := do
  match ← Reader.u8 .invalidArtifact with
  | 0 => pure none
  | 1 => do
    let signature ← Reader.fixed .invalidArtifact 64
    pure (some signature)
  | _ => throw .invalidArtifact

def fields : Reader CheckpointError Checkpoint := do
  expectBytes checkpointDomain
  expectBytes [2]
  let kind ← Reader.u8 .invalidArtifact
  let kind ← (kindFrom kind : Except CheckpointError CheckpointKind)
  expectBytes [2]
  expectBytes [1]
  let journalId ← Reader.fixed .invalidArtifact 16
  let epoch ← Reader.u64 .invalidArtifact
  let firstSequence ← Reader.u64 .invalidArtifact
  let sequence ← Reader.u64 .invalidArtifact
  let hash ← Reader.fixed .invalidArtifact 32
  let createdAtSecs ← Reader.u64 .invalidArtifact
  let previousEpoch ← Reader.u64 .invalidArtifact
  let previousCheckpointDigest ← Reader.fixed .invalidArtifact 32
  let keyId ← Reader.fixed .invalidArtifact 32
  let publicKey ← Reader.fixed .invalidArtifact 32
  let signature ← Reader.fixed .invalidArtifact 64
  let secondarySignature ← secondary
  pure ⟨⟨journalId, epoch, sequence, hash⟩, firstSequence, 2, 1, createdAtSecs, kind, keyId,
    publicKey, previousEpoch, previousCheckpointDigest, signature, secondarySignature⟩

def decode (bytes : Bytes) : Except CheckpointError Checkpoint :=
  if bytes.length < 12 ∨ bytes.length > maxCheckpointBytes ∨ bytes.take 8 ≠ checkpointMagic then
    .error .invalidArtifact
  else if ofBe ((bytes.drop 8).take 4) ≠ bytes.length - 12 then .error .invalidArtifact
  else do
    let checkpoint ← Reader.whole fields .invalidArtifact (bytes.drop 12)
    if decide (checkpoint.kind = .rotation) ≠ checkpoint.secondarySignature.isSome then
      .error .invalidArtifact
    else .ok checkpoint

structure WellFormed (cp : Checkpoint) : Prop where
  schema : cp.schemaVersion = 2
  algorithm : cp.hashAlgorithm = 1
  rotation : decide (cp.kind = .rotation) = cp.secondarySignature.isSome

section Signing
variable (sha256 : Hasher) (ed : Ed25519)

def keyIdOf (key : ed.VerifyingKey) : KeyId := sha256 (ed.toBytes key).val

def signed (head : FlushedHead) (time : UInt64) (kind : CheckpointKind) (signer : ed.SigningKey)
    (publicKey : FixedBytes 32) (previousEpoch : UInt64) : Checkpoint :=
  let cp : Checkpoint := {
    head := head
    firstSequence := 1
    schemaVersion := 2
    hashAlgorithm := 1
    createdAtSecs := time
    kind := kind
    keyId := keyIdOf sha256 ed (ed.verifyingKey signer)
    publicKey := publicKey
    previousEpoch := previousEpoch
    previousCheckpointDigest := .zero 32
    signature := .zero 64
    secondarySignature := none }
  { cp with signature := ed.sign signer cp.payload }

def sign (head : FlushedHead) (createdAtSecs : UInt64) (key : ed.SigningKey)
    (kind : CheckpointKind) : Except CheckpointError Checkpoint :=
  if kind ≠ .periodic then .error .invalidArtifact
  else .ok (signed sha256 ed head createdAtSecs kind key (ed.toBytes (ed.verifyingKey key)) 0)

def signAfter (head : FlushedHead) (createdAtSecs : UInt64) (predecessor : Checkpoint)
    (key : ed.SigningKey) : Except CheckpointError Checkpoint :=
  if head.epoch ≠ predecessor.head.epoch ∨ head.sequence < predecessor.head.sequence then
    .error .rollback
  else do
    let cp ← sign sha256 ed head createdAtSecs key .periodic
    let cp := { cp with previousCheckpointDigest := sha256 predecessor.encode }
    .ok { cp with signature := ed.sign key cp.payload }

def rotate (head : FlushedHead) (createdAtSecs : UInt64) (old new : ed.SigningKey) : Checkpoint :=
  let cp := signed sha256 ed head createdAtSecs .rotation old (ed.toBytes (ed.verifyingKey new)) 0
  { cp with secondarySignature := some (ed.sign new cp.payload) }

def rotateAfter (head : FlushedHead) (createdAtSecs : UInt64) (predecessor : Checkpoint)
    (old new : ed.SigningKey) : Checkpoint :=
  let cp := rotate sha256 ed head createdAtSecs old new
  let cp := { cp with previousCheckpointDigest := sha256 predecessor.encode }
  let cp := { cp with signature := ed.sign old cp.payload }
  { cp with secondarySignature := some (ed.sign new cp.payload) }

def trustReset (head : FlushedHead) (createdAtSecs : UInt64) (new : ed.SigningKey)
    (previousEpoch : UInt64) : Except CheckpointError Checkpoint :=
  if head.epoch ≤ previousEpoch then .error .rollback
  else .ok (signed sha256 ed head createdAtSecs .trustReset new
    (ed.toBytes (ed.verifyingKey new)) previousEpoch)

def trustResetAfter (head : FlushedHead) (createdAtSecs : UInt64) (predecessor : Checkpoint)
    (new : ed.SigningKey) : Except CheckpointError Checkpoint := do
  let cp ← trustReset sha256 ed head createdAtSecs new predecessor.head.epoch
  let cp := { cp with previousCheckpointDigest := sha256 predecessor.encode }
  .ok { cp with signature := ed.sign new cp.payload }

def verifySignature (cp : Checkpoint) (key : ed.VerifyingKey) : Except CheckpointError Unit :=
  if cp.keyId ≠ keyIdOf sha256 ed key then .error .untrusted
  else if ed.verify key cp.payload cp.signature then .ok () else .error .untrusted

end Signing
end Checkpoint

structure TrustBundle (ed : Ed25519) where
  journalId : Id
  startingEpoch : UInt64
  maxRecords : UInt64
  firstSequence : UInt64
  predecessorHash : Digest
  boundary : Option Checkpoint
  initial : ed.VerifyingKey
  minimum : Option Checkpoint
  resets : Tree UInt64 ed.VerifyingKey

def TrustBundle.new (ed : Ed25519) (journalId : Id) (initial : ed.VerifyingKey) : TrustBundle ed :=
  ⟨journalId, 1, 1000000, 1, .zero 32, none, initial, none, .empty⟩

/-! The evidence of a checkpoint list. -/

structure EvidenceState where
  verifier : StreamVerifier
  checkpointCursor : Nat
  currentEpoch : UInt64

def asRollback {α : Type} (x : Except WitnessError α) : Except CheckpointError α :=
  x.mapError fun _ => .rollback

section Evidence
variable (sha256 : Hasher)

def bindCheckpoint (s : EvidenceState) (checkpoint : Checkpoint) (record : ParsedRecord) :
    Except CheckpointError EvidenceState :=
  if record.stage ≠ .checkpointPublished ∨ record.action ≠ .checkpointPublish
      ∨ record.resultDigest ≠ some (sha256 checkpoint.encode)
      ∨ record.previousHash ≠ checkpoint.head.hash ∨ record.epoch ≠ checkpoint.head.epoch then
    .error .rollback
  else if checkpoint.kind = .trustReset then
    if checkpoint.previousEpoch ≠ s.currentEpoch
        ∨ some checkpoint.head.epoch ≠ checkedAdd s.currentEpoch 1 then .error .rollback
    else do
      let verifier ← asRollback (s.verifier.advanceEpoch checkpoint.head.epoch)
      .ok ⟨verifier, s.checkpointCursor + 1, checkpoint.head.epoch⟩
  else if checkpoint.head.epoch ≠ s.currentEpoch then .error .rollback
  else .ok { s with checkpointCursor := s.checkpointCursor + 1 }

def checkPosition (checkpoints : List Checkpoint) (s : EvidenceState) (record : ParsedRecord) :
    Except CheckpointError EvidenceState :=
  match checkpoints[s.checkpointCursor]? with
  | some checkpoint =>
    if checkedAdd checkpoint.head.sequence 1 = some record.sequence then
      bindCheckpoint sha256 s checkpoint record
    else if checkpoint.head.sequence < record.sequence ∨ record.epoch ≠ s.currentEpoch then
      .error .rollback
    else .ok s
  | none => if record.epoch ≠ s.currentEpoch then .error .rollback else .ok s

def takeEvidence (checkpoints : List Checkpoint) (s : EvidenceState) (bytes : Bytes) :
    Except CheckpointError EvidenceState := do
  let decoded ← asRollback (decodeRecord bytes)
  let s ← checkPosition sha256 checkpoints s decoded.record
  let verifier ← asRollback (s.verifier.push sha256 bytes)
  .ok { s with verifier := verifier }

def verifyStreaming (evidence : List Bytes) (journalId : Id) (checkpoints : List Checkpoint)
    (maxRecords startingEpoch firstSequence : UInt64) (predecessorHash : Digest) :
    Except CheckpointError VerificationReport :=
  if checkpoints = [] then .error .untrusted
  else do
    let trust := (StreamTrust.new journalId startingEpoch firstSequence predecessorHash).withMaxRecords
      maxRecords
    let s ← evidence.foldlM (takeEvidence sha256 checkpoints) ⟨.new trust, 0, startingEpoch⟩
    if s.checkpointCursor ≠ checkpoints.length then .error .rollback
    else asRollback s.verifier.finish

end Evidence

structure KeyChain (ed : Ed25519) where
  trusted : ed.VerifyingKey
  trustedKeys : Tree KeyId ed.VerifyingKey
  last : Option Checkpoint
  discontinuities : Nat

section Verifier
variable (sha256 : Hasher) (ed : Ed25519)

def descends (last : Option Checkpoint) (cp : Checkpoint) : Except CheckpointError Unit :=
  match last with
  | some prev =>
    if (cp.kind ≠ .trustReset ∧ cp.head.epoch ≠ prev.head.epoch)
        ∨ (cp.kind = .trustReset
          ∧ (cp.head.epoch.toNat ≠ saturatingAdd prev.head.epoch.toNat 1
            ∨ cp.previousEpoch ≠ prev.head.epoch))
        ∨ cp.previousCheckpointDigest ≠ sha256 prev.encode
        ∨ (cp.head.epoch = prev.head.epoch
          ∧ (cp.head.sequence < prev.head.sequence
            ∨ (cp.head.sequence = prev.head.sequence ∧ cp.head.hash ≠ prev.head.hash)
            ∨ cp.createdAtSecs < prev.createdAtSecs)) then .error .rollback
    else .ok ()
  | none =>
    if cp.kind = .trustReset ∨ cp.previousCheckpointDigest ≠ .zero 32 then .error .untrusted
    else .ok ()

def admitCheckpoint (trust : TrustBundle ed) (s : KeyChain ed) (cp : Checkpoint) :
    Except CheckpointError (KeyChain ed) :=
  if cp.head.journalId ≠ trust.journalId then .error .untrusted
  else do
    descends sha256 s.last cp
    match cp.kind with
    | .periodic => do
      cp.verifySignature sha256 ed s.trusted
      .ok { s with last := some cp }
    | .rotation => do
      cp.verifySignature sha256 ed s.trusted
      match ed.fromBytes cp.publicKey, cp.secondarySignature with
      | some next, some signature =>
        if ed.verify next cp.payload signature then
          .ok { s with
            trusted := next
            trustedKeys := s.trustedKeys.put (Checkpoint.keyIdOf sha256 ed next) next
            last := some cp }
        else .error .untrusted
      | _, _ => .error .untrusted
    | .trustReset =>
      match trust.resets.get cp.head.epoch with
      | none => .error .untrusted
      | some reset =>
        if cp.head.epoch ≤ cp.previousEpoch ∨ ed.toBytes reset ≠ cp.publicKey then .error .untrusted
        else do
          cp.verifySignature sha256 ed reset
          .ok {
            trusted := reset
            trustedKeys := s.trustedKeys.put (Checkpoint.keyIdOf sha256 ed reset) reset
            last := some cp
            discontinuities := s.discontinuities + 1 }

def reachesMinimum (trust : TrustBundle ed) (checkpoints : List Checkpoint) (s : KeyChain ed) :
    Option Bool :=
  trust.minimum.map fun minimum =>
    let signatureValid := (s.trustedKeys.get minimum.keyId).any fun key =>
      (minimum.verifySignature sha256 ed key).toBool
    if minimum.head.journalId ≠ trust.journalId ∨ signatureValid = false
        ∨ checkpoints.contains minimum = false then false
    else s.last.any fun cp =>
      minimum.head.epoch < cp.head.epoch
        ∨ (cp.head.epoch = minimum.head.epoch ∧ minimum.head.sequence ≤ cp.head.sequence
          ∧ (cp.head.sequence ≠ minimum.head.sequence ∨ cp.head.hash = minimum.head.hash))

def verifyIter (trust : TrustBundle ed) (evidence : List Bytes) (checkpoints : List Checkpoint)
    (nowSecs maxAge : UInt64) : Except CheckpointError VerificationReport :=
  match checkpoints with
  | [] => .error .invalidArtifact
  | first :: _ =>
    if checkpoints.length > maxCheckpoints then .error .invalidArtifact
    else if first.head.epoch ≠ trust.startingEpoch ∨ first.firstSequence ≠ trust.firstSequence then
      .error .untrusted
    else do
      let s ← checkpoints.foldlM (admitCheckpoint sha256 ed trust)
        ⟨trust.initial, Tree.empty.put (Checkpoint.keyIdOf sha256 ed trust.initial) trust.initial,
          trust.boundary, 0⟩
      let complete := reachesMinimum sha256 ed trust checkpoints s
      if complete = some false then .error .rollback
      else match s.last with
      | none => .error .untrusted
      | some last =>
        if last.createdAtSecs > nowSecs then .error .invalidArtifact
        else do
          let report ← verifyStreaming sha256 evidence trust.journalId checkpoints trust.maxRecords
            trust.startingEpoch trust.firstSequence trust.predecessorHash
          let age := nowSecs - last.createdAtSecs
          if report.discontinuities ≠ s.discontinuities then .error .rollback
          else .ok { report with
            completenessThroughCheckpoint := complete.or (some true)
            tailFreshness := .unknownTail
            checkpointAge := some (if age ≤ maxAge then .current age else .stale age) }

end Verifier
end Ferrocrate.Witness

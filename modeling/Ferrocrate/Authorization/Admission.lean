import Ferrocrate.Authorization.Delegation
import Ferrocrate.Witness.WitnessReader

/-! Admission of mutations by the age of the checkpoint evidence
(`authorization/admission.rs`). -/
namespace Ferrocrate.Authorization
open Lib
open Witness

abbrev Duration := Nat

def Duration.max : Duration := (2 ^ 64 - 1) * 10 ^ 9 + 999999999

def Duration.saturatingAdd (a b : Duration) : Duration := min (a + b) Duration.max

def Duration.asSecs (d : Duration) : UInt64 := UInt64.ofNat (d / 10 ^ 9)

inductive AdmissionAuthority where
  | userMutation | checkpointRepair | reservedCleanup
deriving DecidableEq

inductive AdmissionEvidence (ed : Ed25519) where
  | timestamp
  | verified (journalId : Id) (trust : TrustBundle ed) (minimum : Checkpoint)
    (checkpoints : List Checkpoint)

structure MutationAdmission (ed : Ed25519) where
  evidence : AdmissionEvidence ed
  maxAge : Duration
  grace : Duration

structure EvidenceFiles where
  checkpoint : Option Bytes
  mirror : ReadMirror
  nowSecs : UInt64

def isCheckpointRepair (action : Action) : Bool :=
  action = .checkpointPublish ∨ action = .checkpointRecover ∨ action = .keyRotate

def allowsUserMutation (maxAge grace : Duration) (newestCheckpointSecs nowSecs : UInt64) : Bool :=
  newestCheckpointSecs ≤ nowSecs ∧
    nowSecs - newestCheckpointSecs ≤ (maxAge.saturatingAdd grace).asSecs

section Admission
variable (sha256 : Hasher) {ed : Ed25519}

def EvidenceFiles.supports (files : EvidenceFiles) (admission : MutationAdmission ed) : Bool :=
  match admission.evidence with
  | .timestamp =>
    match files.checkpoint.map Checkpoint.decode with
    | some (.ok checkpoint) =>
      allowsUserMutation admission.maxAge admission.grace checkpoint.createdAtSecs files.nowSecs
    | _ => false
  | .verified journalId trust minimum checkpoints =>
    let report := do
      let records ← (WitnessReader.read sha256 journalId files.mirror).toOption
      (verifyIter sha256 ed { trust with minimum := some minimum } records checkpoints
        files.nowSecs (admission.maxAge.saturatingAdd admission.grace).asSecs).toOption
    report.any fun report => report.integrity ∧ report.lifecycleConsistent ∧
      report.completenessThroughCheckpoint = some true ∧
      report.checkpointAge.any fun age => age matches .current _

def MutationAdmission.admits (admission : MutationAdmission ed) (files : EvidenceFiles)
    (action : Action) (authority : AdmissionAuthority) : Bool :=
  if authority = .checkpointRepair ∧ isCheckpointRepair action then true
  else if authority = .reservedCleanup then true
  else files.supports sha256 admission

def admits (admission : Option (MutationAdmission ed)) (files : EvidenceFiles) (action : Action) :
    Bool :=
  admission.all fun admission => admission.admits sha256 files action
    (if isCheckpointRepair action then .checkpointRepair else .userMutation)

end Admission
end Ferrocrate.Authorization

import Mathlib.Data.Set.Function
import Ferrocrate.Authorization.HelperGrant
import Ferrocrate.Lib.Program

/-! Policies (`authorization.rs`) and how one is read from its protected file
(`authorization/policy.rs`). -/
namespace Ferrocrate.Authorization
open Lib
open Witness (Digest Hasher)

def maxPolicyBytes : Nat := 1024 * 1024

def policySchemaVersion : Nat := 1

structure PolicyDocument where
  schemaVersion : Nat
  generation : Nat
  mode : AuthorizationMode
deriving DecidableEq

@[ext]
structure PolicySnapshot where
  generation : Nat
  digest : Digest
  document : PolicyDocument
deriving DecidableEq

@[ext]
structure PolicyCandidate where
  snapshot : PolicySnapshot
  source : Bytes
deriving DecidableEq

inductive PolicyError where
  | symlink | notRegularFile | hardLinked
  | wrongOwner (expected actual : Nat)
  | unsafeMode (mode : Nat)
  | tooLarge (maximum : Nat)
  | parse | utf8
  | unsupportedSchema (version : Nat)
  | invalidGeneration
  | rollback (current candidate : Nat)
deriving DecidableEq

structure PolicyFile where
  isSymlink : Bool
  isFile : Bool
  nlink : Nat
  uid : Nat
  mode : Nat
  source : Bytes

structure PolicyReader where
  euid : Nat
  sha256 : Hasher
  parse : Bytes → Except PolicyError PolicyDocument

namespace PolicyReader
variable (r : PolicyReader)

def validateUnixOwnerAndMode (expectedOwner actualOwner rawMode : Nat) : Except PolicyError Unit := do
  if actualOwner ≠ expectedOwner then throw (.wrongOwner expectedOwner actualOwner)
  let mode := rawMode &&& 0o777
  if mode &&& 0o022 ≠ 0 then throw (.unsafeMode mode)

def validateMetadata (file : PolicyFile) : Except PolicyError Unit := do
  if file.isFile = false then throw .notRegularFile
  if file.nlink ≠ 1 then throw .hardLinked
  validateUnixOwnerAndMode r.euid file.uid file.mode
  if file.source.length > maxPolicyBytes then throw (.tooLarge maxPolicyBytes)

def validateDocument (document : PolicyDocument) : Except PolicyError Unit := do
  if document.schemaVersion ≠ policySchemaVersion then
    throw (.unsupportedSchema document.schemaVersion)
  if document.generation = 0 then throw .invalidGeneration

def loadCandidate (file : PolicyFile) : Except PolicyError PolicyCandidate := do
  if file.isSymlink then throw .symlink
  r.validateMetadata file
  if file.source.length > maxPolicyBytes then throw (.tooLarge maxPolicyBytes)
  let document ← r.parse file.source
  validateDocument document
  return ⟨⟨document.generation, r.sha256 file.source, document⟩, file.source⟩

structure ReadFrom (candidate : PolicyCandidate) : Prop where
  parsed : r.parse candidate.source = .ok candidate.snapshot.document
  digest : candidate.snapshot.digest = r.sha256 candidate.source
  generation : candidate.snapshot.generation = candidate.snapshot.document.generation

variable {r}

theorem readFrom_of_loadCandidate {file : PolicyFile} {candidate : PolicyCandidate}
    (h : r.loadCandidate file = .ok candidate) : r.ReadFrom candidate := by
  rw [loadCandidate] at h
  split at h
  · cases h
  obtain ⟨-, -, h⟩ := Except.bind_eq_ok.mp h
  split at h
  · cases h
  obtain ⟨document, hparse, h⟩ := Except.bind_eq_ok.mp h
  obtain ⟨-, -, h⟩ := Except.bind_eq_ok.mp h
  cases h
  exact ⟨hparse, rfl, rfl⟩

theorem ReadFrom.eq_of_source_eq {p q : PolicyCandidate} (hp : r.ReadFrom p) (hq : r.ReadFrom q)
    (h : p.source = q.source) : p = q := by
  have hdocument : p.snapshot.document = q.snapshot.document :=
    Except.ok.inj (hp.parsed.symm.trans (h ▸ hq.parsed))
  have hdigest : p.snapshot.digest = q.snapshot.digest := by
    rw [hp.digest, hq.digest, h]
  have hgeneration : p.snapshot.generation = q.snapshot.generation := by
    rw [hp.generation, hq.generation, hdocument]
  exact PolicyCandidate.ext (PolicySnapshot.ext hgeneration hdigest hdocument) h

theorem ReadFrom.eq_of_digest_eq {placed : Set Bytes} (hinj : Set.InjOn r.sha256 placed)
    {p q : PolicyCandidate} (hp : r.ReadFrom p) (hq : r.ReadFrom q) (hpplaced : p.source ∈ placed)
    (hqplaced : q.source ∈ placed) (h : p.snapshot.digest = q.snapshot.digest) : p = q := by
  rw [hp.digest, hq.digest] at h
  exact hp.eq_of_source_eq hq (hinj hpplaced hqplaced h)

end PolicyReader

structure StableFile (r : PolicyReader) where
  file : PolicyFile
  candidate : PolicyCandidate
  loads : r.loadCandidate file = .ok candidate

end Ferrocrate.Authorization

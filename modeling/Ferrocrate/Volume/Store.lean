import Ferrocrate.Authorization.Closing
import Ferrocrate.Lib.OrdMap

/-! The volume store (`volume_store.rs`): a table of volumes beside their directories, and its
authorised operations. -/
namespace Ferrocrate.Volume
open Lib Lib.Program
open Authorization
open Witness (Digest WitnessOutcome Hasher)

structure VolumeRecord where
  name : String
  path : String
  driver : String
  driverOpts : OrdMap String String
  labels : OrdMap String String
  createdAtUnix : UInt64

structure Row where
  path : String
  driver : String
  driverOpts : String
  createdAtUnix : Int64
  labels : String

inductive VolumeStoreError where
  | openFailed | lock | io
  | volumeExists (name : String)
  | unknownDriver (driver : String)
  | notFound (name : String)
  | authorization (cause : AuthorizationCause)
  | invalidName (name : String)
deriving DecidableEq

structure VolumeCreatePlan where
  name : String
  driver : String
  driverOpts : OrdMap String String
  generation : UInt64
  planDigest : Digest

structure VolumeHost (F : Type) where
  root : String
  now : UInt64
  isPresent : String → F → Bool
  createDirAll : String → Program VolumeStoreError F Unit
  removeDirAll : String → Program VolumeStoreError F Unit
  /-- `File::create`, `append_dir_all`, `finish`. -/
  archive : String → String → Program VolumeStoreError F Unit
  /-- `File::open`, `Archive::unpack`. -/
  unpack : String → String → Program VolumeStoreError F Unit
  printMap : OrdMap String String → String
  parseMap : String → Option (OrdMap String String)

def joined (root name : String) : String :=
  if "/".toList.isPrefixOf name.toList then name else root ++ "/" ++ name

structure VolumeDriver (F : Type) where
  create : String → String → OrdMap String String → Program VolumeStoreError F String
  remove : String → VolumeRecord → Program VolumeStoreError F Unit

structure Volumes (F : Type) where
  rows : OrdMap String Row
  files : F

abbrev VolumeWorld (F : Type) := PermitWorld VolumeStoreError (Volumes F)

inductive Moment where
  | get (name : String)
  | create (name : String)
  | files
  | delete (name : String)
  | finish (permit : SurfacePermit) (outcome : WitnessOutcome)

instance : FinishLabel Moment where
  finish?
    | .finish permit outcome => some (permit, outcome)
    | _ => none

abbrev VolumeTask (F α : Type) := Task VolumeStoreError (VolumeWorld F) Moment α

section Store
variable {F : Type} (host : VolumeHost F)

def onFiles {α : Type} (m : Program VolumeStoreError F α) :
    Program VolumeStoreError (VolumeWorld F) α := fun w =>
  ((m w.store.files).1, { w with store := { w.store with files := (m w.store.files).2 } })

def removeIfPresent (dir : String) : Program VolumeStoreError F Unit := do
  let files ← get
  if host.isPresent dir files then host.removeDirAll dir

def localVolumeDriver : VolumeDriver F where
  create root name _ := do
    host.createDirAll (joined root name)
    return joined root name
  remove root record := removeIfPresent host (joined root record.name)

def drivers (driver : String) : Option (VolumeDriver F) :=
  if driver = "local" then some (localVolumeDriver host) else none

def validateVolumeName (name : String) : Except VolumeStoreError Unit :=
  if name ≠ "" ∧ name.utf8ByteSize ≤ 255 ∧ name ≠ "." ∧ name ≠ ".."
      ∧ name.toList.all (fun c => c.isAlphanum || c = '_' || c = '-' || c = '.') then .ok ()
  else .error (.invalidName name)

def VolumeRecord.row (record : VolumeRecord) : Row :=
  ⟨record.path, record.driver, host.printMap record.driverOpts, record.createdAtUnix.toInt64, "\x7b\x7d"⟩

def volumeRecordFromRow (name : String) (row : Row) : Except VolumeStoreError VolumeRecord := do
  let driverOpts ← (host.parseMap row.driverOpts).elim (.error .openFailed) .ok
  let labels ← (host.parseMap row.labels).elim (.error .openFailed) .ok
  return ⟨name, row.path, row.driver, driverOpts, labels,
    (if row.createdAtUnix < 0 then 0 else row.createdAtUnix).toUInt64⟩

def get (name : String) : VolumeTask F (Option VolumeRecord) :=
  Task.atomically (.get name) (PermitWorld.locked fun s =>
    match s.rows.get name with
    | none => .ok (none, s)
    | some row => (volumeRecordFromRow host name row).map fun record => (some record, s))

def createSection (name driver : String) (driverOpts : OrdMap String String) :
    Program VolumeStoreError (VolumeWorld F) VolumeRecord := do
  let present ← PermitWorld.locked fun s => .ok (s.rows.contains name, s)
  rejectIf (present = true) (.volumeExists name)
  let driverImpl ← okOr (drivers host driver) (.unknownDriver driver)
  let path ← onFiles (driverImpl.create host.root name driverOpts)
  let record : VolumeRecord := ⟨name, path, driver, driverOpts, .empty, host.now⟩
  PermitWorld.locked fun s => .ok ((), { s with rows := s.rows.insert name (record.row host) })
  return record

def createWithDriver (name driver : String) (driverOpts : OrdMap String String) :
    VolumeTask F VolumeRecord := do
  Task.ofExcept (validateVolumeName name)
  Task.atomically (.create name) (createSection host name driver driverOpts)

def remove (name : String) : VolumeTask F Bool := do
  match ← get host name with
  | none => return false
  | some record =>
    match drivers host record.driver with
    | some driver => Task.atomically .files (onFiles (driver.remove host.root record))
    | none => Task.atomically .files (onFiles (removeIfPresent host (joined host.root name)))
    Task.atomically (.delete name)
      (PermitWorld.locked fun s => .ok ((), { s with rows := s.rows.erase name }))
    return true

def getPresent (name : String) : VolumeTask F VolumeRecord := do
  match ← get host name with
  | none => throw (.notFound name)
  | some record => return record

def backup (name dest : String) : VolumeTask F Unit := do
  let record ← getPresent host name
  Task.atomically .files (onFiles (do
    let files ← MonadState.get
    rejectIf (host.isPresent record.path files = false) (.notFound name)
    host.archive record.path dest))

def restore (name src : String) : VolumeTask F Unit := do
  let record ← getPresent host name
  Task.atomically .files (onFiles (host.createDirAll record.path))
  Task.atomically .files (onFiles (host.unpack src record.path))

section Authorized
variable (sha256 : Hasher)

def finishAs (permit : SurfacePermit) (outcome : WitnessOutcome) : VolumeTask F Unit :=
  Task.atomically (.finish permit outcome)
    (PermitWorld.finished sha256 (fun e => .authorization (.surface e)) permit outcome)

def finish (permit : SurfacePermit) (succeeded : Bool) : VolumeTask F Unit :=
  finishAs sha256 permit (if succeeded then .succeeded else .failed)

def executionCheck (permit : SurfacePermit) (action : Action) (name : String) (generation : UInt64) :
    Except VolumeStoreError Unit :=
  (validateExecution sha256 permit action .volume name generation).mapError
    fun e => .authorization (.execution e)

def executed {α : Type} (permit : SurfacePermit) (m : VolumeTask F α) (onError : WitnessOutcome) :
    VolumeTask F α := do
  match ← Task.attempt m with
  | .ok a =>
    finish sha256 permit true
    return a
  | .error e =>
    finishAs sha256 permit onError
    throw e

def createWithDriverAuthorized (plan : VolumeCreatePlan) (permit : SurfacePermit) :
    VolumeTask F VolumeRecord := do
  Task.ofExcept (executionCheck sha256 permit .volumeCreate plan.name plan.generation)
  if permit.proof.operationPlanDigest ≠ some plan.planDigest then
    finish sha256 permit false
    throw (.authorization (.text "volume creation plan does not match authorization proof"))
  else
    executed sha256 permit (createWithDriver host plan.name plan.driver plan.driverOpts) .failed

def removeAuthorized (name : String) (permit : SurfacePermit) : VolumeTask F Bool := do
  Task.ofExcept (executionCheck sha256 permit .volumeDelete name 1)
  executed sha256 permit (remove host name) .failed

def backupAuthorized (name dest : String) (permit : SurfacePermit) : VolumeTask F Unit := do
  Task.ofExcept (executionCheck sha256 permit .volumeBackup name 1)
  executed sha256 permit (backup host name dest) .failed

def restoreAuthorized (name src : String) (permit : SurfacePermit) : VolumeTask F Unit := do
  Task.ofExcept (executionCheck sha256 permit .volumeRestore name 1)
  executed sha256 permit (restore host name src) .outcomeUnknown

end Authorized
end Store
end Ferrocrate.Volume

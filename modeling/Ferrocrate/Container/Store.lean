import Ferrocrate.Lib.Framing
import Ferrocrate.Lib.OrdMap
import Ferrocrate.Lib.Sha256
import Mathlib.Logic.Function.Basic

/-! The container store (`sqlite_container_store.rs`): container rows, lifecycle operations and
name claims in one database, every operation one transaction. -/
namespace Ferrocrate.Container
open Lib

abbrev OperationId := FixedBytes 16

structure MutationReservation where
  operationId : OperationId
  generation : UInt64
  expectedStatus : String
  action : String
  deriving DecidableEq

inductive LifecyclePhase where
  | reserved
  | effectApplied
  | storeDeleted
  deriving DecidableEq

structure HealthLogEntry where
  startUnix : UInt64
  endUnix : UInt64
  exitCode : Int
  output : String
  deriving DecidableEq

structure ContainerRecord where
  id : String
  name : Option String
  pid : UInt32
  processStartTime : Option UInt64
  status : String
  userStopped : Bool
  restartCount : UInt32
  lastExitCode : Option Int
  healthStatus : String
  healthFailures : UInt32
  healthCheckedAtUnix : Option UInt64
  healthLog : List HealthLogEntry
  runtimeInstanceId : Option (FixedBytes 16)
  resourceGeneration : UInt64
  createdAtUnix : UInt64
  mutationGeneration : UInt64
  pendingMutation : Option MutationReservation
  deriving DecidableEq

structure LifecycleOperation where
  operationId : OperationId
  containerId : String
  action : String
  generation : UInt64
  phase : LifecyclePhase
  pid : UInt32
  processStartTime : Option UInt64
  state : String
  pidAfter : Option UInt32
  processStartTimeAfter : Option UInt64
  stateAfter : Option String
  freezerStateAfter : Option Bool
  ownershipDigest : FixedBytes 32
  executionGenerationAfter : Option UInt64
  resultDigest : Option (FixedBytes 32)
  effectSucceeded : Option Bool
  deriving DecidableEq

inductive ContainerStoreError where
  | mutationConflict
  | nameConflict (name containerId : String)
  | sqlite (message : String)
  deriving DecidableEq

structure Database where
  containers : OrdMap String ContainerRecord
  operations : OperationId → Option LifecycleOperation
  claims : OrdMap String String
  keyed : ∀ id record, containers.get id = some record → record.id = id

abbrev ProcessTable := UInt32 → Option UInt64

def lifecycleOperation (procs : ProcessTable) (record : ContainerRecord) (operationId : OperationId)
    (action : String) : LifecycleOperation where
  operationId := operationId
  containerId := record.id
  action := action
  generation := record.mutationGeneration
  phase := .reserved
  pid := record.pid
  processStartTime := procs record.pid
  state := record.status
  pidAfter := none
  processStartTimeAfter := none
  stateAfter := none
  freezerStateAfter := none
  ownershipDigest := Sha256.sha256 (utf8 "ferrocrate/lifecycle-ownership/v1" ++ utf8 record.id
    ++ (record.runtimeInstanceId.getD (.zero 16)).val ++ u64Be record.resourceGeneration)
  executionGenerationAfter := none
  resultDigest := none
  effectSucceeded := none

def nextGeneration (generation : UInt64) : UInt64 :=
  if generation.toNat + 1 < 2 ^ 64 then generation + 1 else generation

namespace Database

def new : Database where
  containers := .empty
  operations _ := none
  claims := .empty
  keyed id record h := by cases h

def setRow (db : Database) (record : ContainerRecord) : Database :=
  { db with
    containers := db.containers.insert record.id record
    keyed := by
      intro id r h
      rw [OrdMap.get_insert] at h
      split at h
      next heq =>
        cases h
        exact heq.symm
      next => exact db.keyed id r h }

def deleteRow (db : Database) (id : String) : Database :=
  { db with
    containers := db.containers.erase id
    keyed := by
      intro id' r h
      rw [OrdMap.get_erase] at h
      split at h
      next => cases h
      next => exact db.keyed id' r h }

def setOperation (db : Database) (operationId : OperationId) (operation : LifecycleOperation) :
    Database :=
  { db with operations := Function.update db.operations operationId (some operation) }

def deleteOperation (db : Database) (operationId : OperationId) : Database :=
  { db with operations := Function.update db.operations operationId none }

/-! ## Name claims -/

def claimName (db : Database) (name containerId : String) :
    Except ContainerStoreError (Bool × Database) :=
  match db.claims.get name with
  | none => .ok (true, { db with claims := db.claims.insert name containerId })
  | some owner =>
    if owner = containerId then .ok (false, db) else .error (.nameConflict name owner)

def dropClaims (db : Database) (containerId : String) (kept : Option String) : Database :=
  { db with claims := db.claims.retain fun name owner => !(owner = containerId && kept ≠ some name) }

def syncRecordName (db : Database) (record : ContainerRecord) :
    Except ContainerStoreError Database :=
  match record.name with
  | none => .ok (db.dropClaims record.id none)
  | some name =>
    match db.claimName name record.id with
    | .error e => .error e
    | .ok (_, db) => .ok (db.dropClaims record.id (some name))

def reserveName (name containerId : String) (db : Database) :
    Except ContainerStoreError (Bool × Database) :=
  db.claimName name containerId

def renameReservedName (containerId name : String) (db : Database) :
    Except ContainerStoreError Database :=
  match db.claimName name containerId with
  | .error e => .error e
  | .ok (_, db) => .ok (db.dropClaims containerId (some name))

def releaseReservedName (containerId : String) (db : Database) : Database :=
  db.dropClaims containerId none

def writeRecord (db : Database) (record : ContainerRecord) : Except ContainerStoreError Database :=
  match db.syncRecordName record with
  | .error e => .error e
  | .ok db =>
    if db.containers.entries.any fun entry =>
        entry.1 ≠ record.id && record.name.isSome && entry.2.name = record.name then
      .error (.sqlite "UNIQUE constraint failed: containers.name")
    else .ok (db.setRow record)

/-! ## Whole records -/

def put (record : ContainerRecord) (db : Database) : Except ContainerStoreError Database :=
  if record.pendingMutation.isSome then .error .mutationConflict else
  match db.containers.get record.id with
  | some existing =>
    if existing.pendingMutation.isSome then .error .mutationConflict else db.writeRecord record
  | none => db.writeRecord record

def putIfGenerationUnreserved (record : ContainerRecord) (expectedGeneration : UInt64)
    (db : Database) : Except ContainerStoreError Database :=
  match db.containers.get record.id with
  | none => .error .mutationConflict
  | some current =>
    if current.mutationGeneration ≠ expectedGeneration ∨ current.pendingMutation.isSome
        ∨ record.pendingMutation.isSome then .error .mutationConflict
    else db.writeRecord record

def putReservedCreation (procs : ProcessTable) (record : ContainerRecord) (db : Database) :
    Except ContainerStoreError Database :=
  match record.pendingMutation with
  | none => .error .mutationConflict
  | some reservation =>
    if (db.containers.get record.id).isSome ∨ (db.operations reservation.operationId).isSome then
      .error .mutationConflict
    else
      match db.writeRecord record with
      | .error e => .error e
      | .ok db => .ok (db.setOperation reservation.operationId
          (lifecycleOperation procs record reservation.operationId reservation.action))

def putForMutation (procs : ProcessTable) (record : ContainerRecord) (operationId : OperationId)
    (db : Database) : Except ContainerStoreError Database :=
  match db.containers.get record.id with
  | none => .error .mutationConflict
  | some current =>
    match current.pendingMutation with
    | none => .error .mutationConflict
    | some reservation =>
      if reservation.operationId ≠ operationId
          ∨ reservation.generation ≠ current.mutationGeneration
          ∨ record.pendingMutation ≠ some reservation
          ∨ record.mutationGeneration ≠ current.mutationGeneration then .error .mutationConflict
      else
        match db.operations operationId with
        | none => .error .mutationConflict
        | some operation =>
          match db.writeRecord record with
          | .error e => .error e
          | .ok db => .ok (db.setOperation operationId { operation with
              pidAfter := some record.pid
              processStartTimeAfter := procs record.pid
              stateAfter := some record.status })

def remove (id : String) (db : Database) : Bool × Database :=
  ((db.containers.get id).isSome, (db.deleteRow id).dropClaims id none)

/-! ## Updates under a reservation -/

def setStatusForMutation (procs : ProcessTable) (id : String) (operationId : OperationId)
    (status : String) (db : Database) : Except ContainerStoreError Database :=
  match db.containers.get id with
  | none => .error .mutationConflict
  | some record =>
    match record.pendingMutation with
    | none => .error .mutationConflict
    | some reservation =>
      if reservation.operationId ≠ operationId
          ∨ reservation.generation ≠ record.mutationGeneration then .error .mutationConflict
      else
        match db.operations operationId with
        | none => .error .mutationConflict
        | some operation =>
          if operation.containerId ≠ id ∨ operation.generation ≠ record.mutationGeneration then
            .error .mutationConflict
          else .ok ((db.setRow { record with status := status }).setOperation operationId
            { operation with
              stateAfter := some status
              pidAfter := some record.pid
              processStartTimeAfter := procs record.pid })

def updateForMutation (id : String) (operationId : OperationId) (expectedGeneration : UInt64)
    (check : ContainerRecord → MutationReservation → Bool)
    (change : ContainerRecord → ContainerRecord) (db : Database) :
    Except ContainerStoreError Database :=
  match db.containers.get id with
  | none => .error .mutationConflict
  | some record =>
    match record.pendingMutation with
    | none => .error .mutationConflict
    | some reservation =>
      if reservation.operationId ≠ operationId ∨ reservation.generation ≠ expectedGeneration
          ∨ record.mutationGeneration ≠ expectedGeneration ∨ check record reservation = false then
        .error .mutationConflict
      else .ok (db.setRow (change record))

def setLastExitCodeForMutation (id : String) (operationId : OperationId)
    (expectedGeneration : UInt64) (exitCode : Int) : Database → Except ContainerStoreError Database :=
  updateForMutation id operationId expectedGeneration (fun _ _ => true)
    fun record => { record with lastExitCode := some exitCode }

def transitionStatusAndUserStoppedForMutation (id : String) (operationId : OperationId)
    (expectedGeneration : UInt64) (expectedStatus nextStatus : String) (userStopped : Option Bool) :
    Database → Except ContainerStoreError Database :=
  updateForMutation id operationId expectedGeneration
    (fun record reservation =>
      reservation.expectedStatus = expectedStatus && record.status = expectedStatus)
    fun record => { record with
      status := nextStatus
      userStopped := userStopped.getD record.userStopped }

def setUserStoppedForMutation (id : String) (operationId : OperationId)
    (expectedGeneration : UInt64) (userStopped : Bool) :
    Database → Except ContainerStoreError Database :=
  updateForMutation id operationId expectedGeneration (fun _ _ => true)
    fun record => { record with userStopped := userStopped }

/-! ## Reservations -/

def reserveMutation (procs : ProcessTable) (id expectedStatus : String)
    (expectedGeneration : UInt64) (operationId : OperationId) (action : String) (db : Database) :
    Except ContainerStoreError Database :=
  match db.containers.get id with
  | none => .error .mutationConflict
  | some record =>
    if record.status ≠ expectedStatus ∨ record.mutationGeneration ≠ expectedGeneration
        ∨ record.pendingMutation.isSome then .error .mutationConflict
    else
      let record := { record with
        pendingMutation := some ⟨operationId, expectedGeneration, expectedStatus, action⟩ }
      if (db.operations operationId).isSome then .error .mutationConflict else
      .ok ((db.setOperation operationId
        (lifecycleOperation procs record operationId action)).setRow record)

def reReserveMutation (id : String) (operationId : OperationId) (action : String) (db : Database) :
    Except ContainerStoreError Database :=
  match db.containers.get id with
  | none => .error .mutationConflict
  | some record =>
    match record.pendingMutation with
    | some reservation =>
      if reservation.operationId = operationId then .ok db else .error .mutationConflict
    | none =>
      match db.operations operationId with
      | none => .error .mutationConflict
      | some operation =>
        if operation.containerId ≠ id ∨ operation.generation ≠ record.mutationGeneration then
          .error .mutationConflict
        else .ok (db.setRow { record with
          pendingMutation :=
            some ⟨operationId, record.mutationGeneration, record.status, action⟩ })

def markMutationEffectObserved (procs : ProcessTable) (id : String) (operationId : OperationId)
    (succeeded : Bool) (freezerState : Option Bool) (db : Database) :
    Except ContainerStoreError Database :=
  match db.containers.get id with
  | none => .error .mutationConflict
  | some record =>
    match db.operations operationId with
    | none => if record.pendingMutation.isNone then .ok db else .error .mutationConflict
    | some operation =>
      if record.pendingMutation.map MutationReservation.operationId ≠ some operationId
          ∨ operation.containerId ≠ id ∨ operation.generation ≠ record.mutationGeneration then
        .error .mutationConflict
      else .ok (db.setOperation operationId { operation with
        phase := .effectApplied
        pidAfter := some record.pid
        processStartTimeAfter := procs record.pid
        stateAfter := some record.status
        freezerStateAfter := freezerState
        executionGenerationAfter :=
          some (if operation.action = "container.restart" ∧ succeeded = true then
            nextGeneration record.mutationGeneration else record.mutationGeneration)
        resultDigest := some (Sha256.sha256 (utf8 "ferrocrate/lifecycle-result/v1"
          ++ operationId.val ++ [if succeeded then 1 else 0]))
        effectSucceeded := some succeeded })

def deleteForMutation (id : String) (operationId : OperationId) (db : Database) :
    Except ContainerStoreError Database :=
  match db.containers.get id with
  | none => .error .mutationConflict
  | some record =>
    if record.pendingMutation.map MutationReservation.operationId ≠ some operationId then
      .error .mutationConflict
    else
      match db.operations operationId with
      | none => .error .mutationConflict
      | some operation =>
        .ok (((db.setOperation operationId { operation with phase := .storeDeleted }).deleteRow
          id).dropClaims id none)

def acknowledgeMutation (operationId : OperationId) (db : Database) : Database :=
  db.deleteOperation operationId

def finishMutation (id : String) (operationId : OperationId) (db : Database) :
    Except ContainerStoreError Database :=
  match db.containers.get id with
  | none => .ok db
  | some record =>
    match record.pendingMutation with
    | none => if (db.operations operationId).isNone then .ok db else .error .mutationConflict
    | some reservation =>
      if reservation.operationId ≠ operationId
          ∨ reservation.generation ≠ record.mutationGeneration then .error .mutationConflict
      else .ok ((db.setRow { record with
        pendingMutation := none
        mutationGeneration := nextGeneration record.mutationGeneration }).deleteOperation
          operationId)

/-! ## Updates by the supervisors -/

def updateExitForProcess (id : String) (expectedPid : UInt32) (expectedStartTime : Option UInt64)
    (exitCode : Int) (db : Database) : Except ContainerStoreError (Option String × Database) :=
  match db.containers.get id with
  | none => .ok (none, db)
  | some record =>
    if record.pid ≠ expectedPid
        ∨ expectedStartTime.isSome ∧ record.processStartTime ≠ expectedStartTime then .ok (none, db)
    else if record.pendingMutation.isSome then .error .mutationConflict
    else
      let status := if record.status ≠ "stopped" ∧ record.status ≠ "killed" then "exited"
        else record.status
      .ok (some status, db.setRow { record with lastExitCode := some exitCode, status := status })

def resetRestartCountForProcess (id : String) (expectedPid : UInt32) (db : Database) :
    Bool × Database :=
  match db.containers.get id with
  | none => (false, db)
  | some record =>
    if record.pid ≠ expectedPid ∨ record.pendingMutation.isSome then (false, db)
    else (true, db.setRow { record with restartCount := 0 })

def updateHealth (id status : String) (failures : UInt32) (checkedAtUnix : UInt64)
    (healthLog : List HealthLogEntry) (db : Database) : Bool × Database :=
  match db.containers.get id with
  | none => (false, db)
  | some record =>
    if record.pendingMutation.isSome then (false, db)
    else (true, db.setRow { record with
      healthStatus := status
      healthFailures := failures
      healthCheckedAtUnix := some checkedAtUnix
      healthLog := healthLog })

end Database

end Ferrocrate.Container

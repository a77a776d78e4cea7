import Ferrocrate.Container.Store

/-! What one operation of the container store can do to the rows and the lifecycle operations. -/
namespace Ferrocrate.Container
open Lib

inductive StoreCall where
  | reserveName (name containerId : String)
  | renameReservedName (containerId name : String)
  | releaseReservedName (containerId : String)
  | put (record : ContainerRecord)
  | putIfGenerationUnreserved (record : ContainerRecord) (expectedGeneration : UInt64)
  | putReservedCreation (procs : ProcessTable) (record : ContainerRecord)
  | putForMutation (procs : ProcessTable) (record : ContainerRecord) (operationId : OperationId)
  | setStatusForMutation (procs : ProcessTable) (id : String) (operationId : OperationId)
      (status : String)
  | remove (id : String)
  | setLastExitCodeForMutation (id : String) (operationId : OperationId)
      (expectedGeneration : UInt64) (exitCode : Int)
  | transitionStatusAndUserStoppedForMutation (id : String) (operationId : OperationId)
      (expectedGeneration : UInt64) (expectedStatus nextStatus : String)
      (userStopped : Option Bool)
  | setUserStoppedForMutation (id : String) (operationId : OperationId)
      (expectedGeneration : UInt64) (userStopped : Bool)
  | reserveMutation (procs : ProcessTable) (id expectedStatus : String)
      (expectedGeneration : UInt64) (operationId : OperationId) (action : String)
  | reReserveMutation (id : String) (operationId : OperationId) (action : String)
  | markMutationEffectObserved (procs : ProcessTable) (id : String) (operationId : OperationId)
      (succeeded : Bool) (freezerState : Option Bool)
  | deleteForMutation (id : String) (operationId : OperationId)
  | acknowledgeMutation (operationId : OperationId)
  | finishMutation (id : String) (operationId : OperationId)
  | updateExitForProcess (id : String) (expectedPid : UInt32) (expectedStartTime : Option UInt64)
      (exitCode : Int)
  | resetRestartCountForProcess (id : String) (expectedPid : UInt32)
  | updateHealth (id status : String) (failures : UInt32) (checkedAtUnix : UInt64)
      (healthLog : List HealthLogEntry)

def StoreCall.apply : StoreCall → Database → Except ContainerStoreError Database
  | .reserveName name containerId, db => (db.reserveName name containerId).map Prod.snd
  | .renameReservedName containerId name, db => db.renameReservedName containerId name
  | .releaseReservedName containerId, db => .ok (db.releaseReservedName containerId)
  | .put record, db => db.put record
  | .putIfGenerationUnreserved record expected, db => db.putIfGenerationUnreserved record expected
  | .putReservedCreation procs record, db => db.putReservedCreation procs record
  | .putForMutation procs record operationId, db => db.putForMutation procs record operationId
  | .setStatusForMutation procs id operationId status, db =>
    db.setStatusForMutation procs id operationId status
  | .remove id, db => .ok (db.remove id).2
  | .setLastExitCodeForMutation id operationId expected exitCode, db =>
    db.setLastExitCodeForMutation id operationId expected exitCode
  | .transitionStatusAndUserStoppedForMutation id operationId expected status next stopped, db =>
    db.transitionStatusAndUserStoppedForMutation id operationId expected status next stopped
  | .setUserStoppedForMutation id operationId expected stopped, db =>
    db.setUserStoppedForMutation id operationId expected stopped
  | .reserveMutation procs id status expected operationId action, db =>
    db.reserveMutation procs id status expected operationId action
  | .reReserveMutation id operationId action, db => db.reReserveMutation id operationId action
  | .markMutationEffectObserved procs id operationId succeeded freezer, db =>
    db.markMutationEffectObserved procs id operationId succeeded freezer
  | .deleteForMutation id operationId, db => db.deleteForMutation id operationId
  | .acknowledgeMutation operationId, db => .ok (db.acknowledgeMutation operationId)
  | .finishMutation id operationId, db => db.finishMutation id operationId
  | .updateExitForProcess id pid start exitCode, db =>
    (db.updateExitForProcess id pid start exitCode).map Prod.snd
  | .resetRestartCountForProcess id pid, db => .ok (db.resetRestartCountForProcess id pid).2
  | .updateHealth id status failures checked log, db =>
    .ok (db.updateHealth id status failures checked log).2

def Database.step (db : Database) (call : StoreCall) : Database :=
  match call.apply db with
  | .ok db' => db'
  | .error _ => db

structure RowView where
  generation : UInt64
  pending : Option (OperationId × UInt64)
  deriving DecidableEq

structure OperationView where
  container : String
  generation : UInt64
  isOpen : Bool
  deriving DecidableEq

def ContainerRecord.view (record : ContainerRecord) : RowView :=
  ⟨record.mutationGeneration, record.pendingMutation.map fun r => (r.operationId, r.generation)⟩

def LifecycleOperation.view (operation : LifecycleOperation) : OperationView :=
  ⟨operation.containerId, operation.generation, operation.phase ≠ .storeDeleted⟩

namespace Database
variable {db db' : Database}

def row (db : Database) (id : String) : Option RowView := (db.containers.get id).map ContainerRecord.view

def operation (db : Database) (operationId : OperationId) : Option OperationView :=
  (db.operations operationId).map LifecycleOperation.view

variable {record : ContainerRecord} {id : String}

theorem row_eq_some
    (h : db.containers.get id = some record) : db.row id = some record.view := by
  rw [row, h]
  rfl

theorem row_eq_none (h : db.containers.get id = none) : db.row id = none := by
  rw [row, h]
  rfl

variable {operationId : OperationId}

theorem operation_eq_some {operation : LifecycleOperation}
    (h : db.operations operationId = some operation) :
    db.operation operationId = some operation.view := by
  rw [Database.operation, h]
  rfl

theorem operation_eq_none (h : db.operations operationId = none) :
    db.operation operationId = none := by
  rw [Database.operation, h]
  rfl

@[simp] theorem row_setRow (record : ContainerRecord) :
    (db.setRow record).row = Function.update db.row record.id (some record.view) := by
  funext id
  rw [row, setRow, OrdMap.get_insert, Function.update_apply]
  split
  · rfl
  · rfl

@[simp] theorem operation_setRow (record : ContainerRecord) :
    (db.setRow record).operation = db.operation := rfl

@[simp] theorem row_deleteRow (id : String) :
    (db.deleteRow id).row = Function.update db.row id none := by
  funext id'
  rw [row, deleteRow, OrdMap.get_erase, Function.update_apply]
  split
  · rfl
  · rfl

@[simp] theorem operation_deleteRow (id : String) : (db.deleteRow id).operation = db.operation := rfl

@[simp] theorem row_setOperation (operationId : OperationId) (operation : LifecycleOperation) :
    (db.setOperation operationId operation).row = db.row := rfl

@[simp] theorem operation_setOperation (operationId : OperationId)
    (operation : LifecycleOperation) : (db.setOperation operationId operation).operation =
      Function.update db.operation operationId (some operation.view) := by
  funext other
  simp only [Database.operation, setOperation, Function.update_apply]
  split
  · rfl
  · rfl

@[simp] theorem row_deleteOperation (operationId : OperationId) :
    (db.deleteOperation operationId).row = db.row := rfl

@[simp] theorem operation_deleteOperation (operationId : OperationId) :
    (db.deleteOperation operationId).operation = Function.update db.operation operationId none := by
  funext other
  simp only [Database.operation, deleteOperation, Function.update_apply]
  split
  · rfl
  · rfl

@[simp] theorem row_dropClaims (id : String) (kept : Option String) :
    (db.dropClaims id kept).row = db.row := rfl

@[simp] theorem operation_dropClaims (id : String) (kept : Option String) :
    (db.dropClaims id kept).operation = db.operation := rfl

theorem claimName_views {name id : String} {inserted : Bool}
    (h : db.claimName name id = .ok (inserted, db')) :
    db'.row = db.row ∧ db'.operation = db.operation := by
  unfold claimName at h
  split at h
  · cases h
    exact ⟨rfl, rfl⟩
  · split at h
    · cases h
      exact ⟨rfl, rfl⟩
    · cases h

theorem syncRecordName_views (h : db.syncRecordName record = .ok db') :
    db'.row = db.row ∧ db'.operation = db.operation := by
  unfold syncRecordName at h
  split at h
  · cases h
    exact ⟨rfl, rfl⟩
  · split at h
    · cases h
    next hclaim =>
      cases h
      obtain ⟨hrow, hop⟩ := claimName_views hclaim
      exact ⟨hrow, hop⟩

theorem writeRecord_views (h : db.writeRecord record = .ok db') :
    db'.row = Function.update db.row record.id (some record.view) ∧
      db'.operation = db.operation := by
  unfold writeRecord at h
  split at h
  · cases h
  next hsync =>
    obtain ⟨hrow, hoperation⟩ := syncRecordName_views hsync
    split at h
    · cases h
    · cases h
      rw [row_setRow, hrow]
      exact ⟨rfl, hoperation⟩

theorem update_row {view : RowView} (h : db.row id = some view) :
    Function.update db.row id (some view) = db.row := by
  rw [← h, Function.update_eq_self]

theorem update_operation {view : OperationView}
    (h : db.operation operationId = some view) :
    Function.update db.operation operationId (some view) = db.operation := by
  rw [← h, Function.update_eq_self]

end Database

def StoreCall.written : StoreCall → Option (String × UInt64)
  | .put record => some (record.id, record.mutationGeneration)
  | .putIfGenerationUnreserved record _ => some (record.id, record.mutationGeneration)
  | _ => none

def StoreCall.expected : StoreCall → Option UInt64
  | .putIfGenerationUnreserved _ expected => some expected
  | _ => none

def StoreCall.allowed (db : Database) : StoreCall → Bool
  | .putReservedCreation _ record =>
    record.pendingMutation.all fun r => r.generation = record.mutationGeneration
  | .acknowledgeMutation operationId =>
    (db.operations operationId).all fun operation => operation.phase = .storeDeleted
  | _ => true

inductive StoreStep (db db' : Database) : StoreCall → Prop where
  | keep {call : StoreCall} (hrow : db'.row = db.row) (hop : db'.operation = db.operation) :
      StoreStep db db' call
  | write {call : StoreCall} (id : String) (generation : UInt64)
      (hcall : call.written = some (id, generation))
      (hfree : ∀ view, db.row id = some view →
        view.pending = none ∧ ∀ expected ∈ call.expected, view.generation = expected)
      (hrow : db'.row = Function.update db.row id (some ⟨generation, none⟩))
      (hop : db'.operation = db.operation) : StoreStep db db' call
  | reserve {call : StoreCall} (id : String) (operationId : OperationId)
      (generation reserved : UInt64)
      (hfree : ∀ view, db.row id = some view →
        view.pending = none ∧ view.generation = generation)
      (hsame : call.allowed db = true → reserved = generation)
      (hnew : db.operation operationId = none)
      (hrow : db'.row = Function.update db.row id
        (some ⟨generation, some (operationId, reserved)⟩))
      (hop : db'.operation = Function.update db.operation operationId
        (some ⟨id, generation, true⟩)) : StoreStep db db' call
  | reReserve {call : StoreCall} (id : String) (operationId : OperationId) (generation : UInt64)
      (isOpen : Bool) (hfree : db.row id = some ⟨generation, none⟩)
      (hheld : db.operation operationId = some ⟨id, generation, isOpen⟩)
      (hrow : db'.row = Function.update db.row id
        (some ⟨generation, some (operationId, generation)⟩))
      (hop : db'.operation = db.operation) : StoreStep db db' call
  | effect {call : StoreCall} (id : String) (operationId : OperationId) (view : RowView)
      (hpending : db.row id = some view)
      (hid : view.pending.map Prod.fst = some operationId) (hrow : db'.row = db.row)
      (hheld : ∃ isOpen, db.operation operationId = some ⟨id, view.generation, isOpen⟩)
      (hop : db'.operation = Function.update db.operation operationId
        (some ⟨id, view.generation, true⟩)) : StoreStep db db' call
  | delete {call : StoreCall} (id : String) (operationId : OperationId) (view : RowView)
      (held : OperationView) (hpending : db.row id = some view)
      (hid : view.pending.map Prod.fst = some operationId)
      (hheld : db.operation operationId = some held)
      (hrow : db'.row = Function.update db.row id none)
      (hop : db'.operation = Function.update db.operation operationId
        (some { held with isOpen := false })) : StoreStep db db' call
  | finish {call : StoreCall} (id : String) (operationId : OperationId) (generation : UInt64)
      (hpending : db.row id = some ⟨generation, some (operationId, generation)⟩)
      (hrow : db'.row = Function.update db.row id (some ⟨nextGeneration generation, none⟩))
      (hop : db'.operation = Function.update db.operation operationId none) :
      StoreStep db db' call
  | remove (id : String) (hrow : db'.row = Function.update db.row id none)
      (hop : db'.operation = db.operation) : StoreStep db db' (.remove id)
  | acknowledge (operationId : OperationId) (hrow : db'.row = db.row)
      (hop : db'.operation = Function.update db.operation operationId none) :
      StoreStep db db' (.acknowledgeMutation operationId)

namespace Database
variable {db db' : Database} {id : String} {record : ContainerRecord}

theorem row_setRow_of_view {record' : ContainerRecord} (hget : db.containers.get id = some record)
    (hid : record'.id = record.id) (hview : record'.view = record.view) :
    (db.setRow record').row = db.row := by
  rw [row_setRow, hid, db.keyed id record hget, hview]
  exact update_row (row_eq_some hget)

theorem view_pending_none (h : record.pendingMutation.isSome = false) :
    record.view.pending = none := by
  have : record.pendingMutation = none := by simpa using h
  rw [ContainerRecord.view, this]
  rfl

theorem view_of_pending {reservation : MutationReservation}
    (h : record.pendingMutation = some reservation) :
    record.view.pending = some (reservation.operationId, reservation.generation) := by
  rw [ContainerRecord.view, h]
  rfl

theorem put_step (h : db.put record = .ok db') : StoreStep db db' (.put record) := by
  unfold put at h
  split_ifs at h with hpending
  have hview : record.view = ⟨record.mutationGeneration, none⟩ := by
    have := view_pending_none (by simpa using hpending)
    rw [← this]
    rfl
  have hwrite : ∀ view, db.row record.id = some view → view.pending = none := by
    intro view hview
    split at h
    next existing hget =>
      split_ifs at h with hexisting
      rw [row_eq_some hget] at hview
      cases hview
      exact view_pending_none (by simpa using hexisting)
    next hget =>
      rw [row_eq_none hget] at hview
      cases hview
  have hwritten : db.writeRecord record = .ok db' := by
    split at h
    · split_ifs at h
      exact h
    · exact h
  obtain ⟨hrow, hop⟩ := writeRecord_views hwritten
  rw [hview] at hrow
  exact .write record.id record.mutationGeneration rfl
    (fun view hv => ⟨hwrite view hv, fun expected he => by cases he⟩) hrow hop

variable {expected : UInt64}

theorem putIfGenerationUnreserved_step
    (h : db.putIfGenerationUnreserved record expected = .ok db') :
    StoreStep db db' (.putIfGenerationUnreserved record expected) := by
  unfold putIfGenerationUnreserved at h
  split at h
  · cases h
  next current hget =>
    split_ifs at h with hcheck
    push Not at hcheck
    obtain ⟨hgeneration, hcurrent, hpending⟩ := hcheck
    obtain ⟨hrow, hop⟩ := writeRecord_views h
    have hview : record.view = ⟨record.mutationGeneration, none⟩ := by
      have := view_pending_none (by simpa using hpending)
      rw [← this]
      rfl
    rw [hview] at hrow
    refine .write record.id record.mutationGeneration rfl ?_ hrow hop
    intro view hv
    rw [row_eq_some hget] at hv
    cases hv
    refine ⟨view_pending_none (by simpa using hcurrent), ?_⟩
    intro e he
    cases he
    exact hgeneration

variable {procs : ProcessTable}

theorem putReservedCreation_step
    (h : db.putReservedCreation procs record = .ok db') :
    StoreStep db db' (.putReservedCreation procs record) := by
  unfold putReservedCreation at h
  split at h
  · cases h
  next reservation hpending =>
    split_ifs at h with hcheck
    push Not at hcheck
    have hget : db.containers.get record.id = none := by simpa using hcheck.1
    have hnew : db.operations reservation.operationId = none := by simpa using hcheck.2
    split at h
    · cases h
    next written hwritten =>
      cases h
      obtain ⟨hrow, hop⟩ := writeRecord_views hwritten
      have hview : record.view = ⟨record.mutationGeneration,
          some (reservation.operationId, reservation.generation)⟩ := by
        rw [ContainerRecord.view, hpending, Option.map_some]
      refine .reserve record.id reservation.operationId record.mutationGeneration
        reservation.generation ?_ ?_ (operation_eq_none hnew) ?_ ?_
      · intro view hv
        rw [row_eq_none hget] at hv
        cases hv
      · intro hallowed
        simpa [StoreCall.allowed, hpending] using hallowed
      · rw [row_setOperation, hrow, hview]
      · rw [operation_setOperation, hop]
        rfl

variable {operationId : OperationId} {call : StoreCall}

theorem putForMutation_step
    (h : db.putForMutation procs record operationId = .ok db') :
    StoreStep db db' call := by
  unfold putForMutation at h
  split at h
  · cases h
  next current hget =>
    split at h
    · cases h
    next reservation hreservation =>
      split_ifs at h with hcheck
      push Not at hcheck
      obtain ⟨-, -, hpending, hgeneration⟩ := hcheck
      split at h
      · cases h
      next operation hoperation =>
        split at h
        · cases h
        next written hwritten =>
          cases h
          obtain ⟨hrow, hop⟩ := writeRecord_views hwritten
          have hview : record.view = current.view := by
            rw [ContainerRecord.view, ContainerRecord.view, hpending, hreservation, hgeneration]
          refine .keep ?_ ?_
          · rw [row_setOperation, hrow, hview]
            exact update_row (row_eq_some hget)
          · have hheld := operation_eq_some hoperation
            rw [operation_setOperation, hop]
            exact update_operation hheld

theorem setStatusForMutation_step
    {status : String} (h : db.setStatusForMutation procs id operationId status = .ok db') : StoreStep db db' call := by
  unfold setStatusForMutation at h
  split at h
  · cases h
  next record hget =>
    split at h
    · cases h
    next reservation hreservation =>
      split_ifs at h
      split at h
      · cases h
      next operation hoperation =>
        split_ifs at h
        cases h
        refine .keep ?_ ?_
        · rw [row_setOperation]
          exact row_setRow_of_view hget rfl rfl
        · have hheld := operation_eq_some hoperation
          rw [operation_setOperation, operation_setRow]
          exact update_operation hheld

theorem updateForMutation_step
    {check : ContainerRecord → MutationReservation → Bool}
    {change : ContainerRecord → ContainerRecord}
    (h : db.updateForMutation id operationId expected check change = .ok db')
    (hchange : ∀ record, (change record).id = record.id ∧ (change record).view = record.view) : StoreStep db db' call := by
  unfold updateForMutation at h
  split at h
  · cases h
  next record hget =>
    split at h
    · cases h
    · split_ifs at h
      cases h
      exact .keep (row_setRow_of_view hget (hchange record).1 (hchange record).2) rfl

theorem reserveMutation_step {status action : String}
    (h : db.reserveMutation procs id status expected operationId action = .ok db') : StoreStep db db' call := by
  unfold reserveMutation at h
  split at h
  · cases h
  next record hget =>
    split_ifs at h with hcheck hnew
    push Not at hcheck
    obtain ⟨-, hgeneration, hpending⟩ := hcheck
    cases h
    have hid := db.keyed id record hget
    refine .reserve id operationId record.mutationGeneration record.mutationGeneration ?_
      (fun _ => rfl) (operation_eq_none (by simpa using hnew)) ?_ ?_
    · intro view hv
      rw [row_eq_some hget] at hv
      cases hv
      exact ⟨view_pending_none (by simpa using hpending), rfl⟩
    · rw [row_setRow, row_setOperation, ← hgeneration]
      simp only [hid]
      rfl
    · rw [operation_setRow, operation_setOperation]
      simp only [LifecycleOperation.view, lifecycleOperation, hid]
      rfl

theorem reReserveMutation_step {action : String}
    (h : db.reReserveMutation id operationId action = .ok db') :
    StoreStep db db' call := by
  unfold reReserveMutation at h
  split at h
  · cases h
  next record hget =>
    split at h
    · split_ifs at h
      cases h
      exact .keep rfl rfl
    next hpending =>
      split at h
      · cases h
      next operation hoperation =>
        split_ifs at h with hcheck
        push Not at hcheck
        cases h
        have hid := db.keyed id record hget
        refine .reReserve id operationId record.mutationGeneration
          operation.view.isOpen ?_ ?_ ?_ rfl
        · rw [row_eq_some hget, ContainerRecord.view, hpending]
          rfl
        · rw [operation_eq_some hoperation, LifecycleOperation.view, hcheck.1, hcheck.2]
        · rw [row_setRow]
          simp only [hid]
          rfl

theorem markMutationEffectObserved_step
    {succeeded : Bool} {freezer : Option Bool}
    (h : db.markMutationEffectObserved procs id operationId succeeded freezer = .ok db') : StoreStep db db' call := by
  unfold markMutationEffectObserved at h
  split at h
  · cases h
  next record hget =>
    split at h
    · split_ifs at h
      cases h
      exact .keep rfl rfl
    next operation hoperation =>
      split at h
      · cases h
      next hcheck =>
      push Not at hcheck
      obtain ⟨hpending, hcontainer, hgeneration⟩ := hcheck
      cases h
      refine .effect id operationId record.view (row_eq_some hget) ?_ rfl
        ⟨operation.view.isOpen, ?_⟩ ?_
      · rw [ContainerRecord.view, ← hpending, Option.map_map]
        rfl
      · rw [operation_eq_some hoperation, LifecycleOperation.view, hcontainer, hgeneration]
        rfl
      · rw [operation_setOperation]
        simp only [LifecycleOperation.view, hcontainer, hgeneration]
        rfl

theorem deleteForMutation_step
    (h : db.deleteForMutation id operationId = .ok db') :
    StoreStep db db' call := by
  unfold deleteForMutation at h
  split at h
  · cases h
  next record hget =>
    split_ifs at h with hpending
    push Not at hpending
    split at h
    · cases h
    next operation hoperation =>
      cases h
      refine .delete id operationId record.view operation.view (row_eq_some hget) ?_
        (operation_eq_some hoperation) ?_ ?_
      · rw [ContainerRecord.view, ← hpending, Option.map_map]
        rfl
      · rw [row_dropClaims, row_deleteRow, row_setOperation]
      · rw [operation_dropClaims, operation_deleteRow, operation_setOperation]
        rfl

theorem finishMutation_step
    (h : db.finishMutation id operationId = .ok db') :
    StoreStep db db' call := by
  unfold finishMutation at h
  split at h
  · cases h
    exact .keep rfl rfl
  next record hget =>
    split at h
    · split_ifs at h
      cases h
      exact .keep rfl rfl
    next reservation hpending =>
      split_ifs at h with hcheck
      push Not at hcheck
      cases h
      have hid := db.keyed id record hget
      refine .finish id operationId record.mutationGeneration ?_ ?_ ?_
      · rw [row_eq_some hget, ContainerRecord.view, hpending, Option.map_some, hcheck.1, hcheck.2]
      · rw [row_deleteOperation, row_setRow]
        simp only [hid]
        rfl
      · rw [operation_deleteOperation, operation_setRow]

theorem updateExitForProcess_step {pid : UInt32} {start : Option UInt64} {exitCode : Int}
    {status : Option String} (h : db.updateExitForProcess id pid start exitCode = .ok (status, db')) : StoreStep db db' call := by
  unfold updateExitForProcess at h
  split at h
  · cases h
    exact .keep rfl rfl
  next record hget =>
    split_ifs at h
    · cases h
      exact .keep rfl rfl
    all_goals
      cases h
      exact .keep (row_setRow_of_view hget rfl rfl) rfl

theorem resetRestartCountForProcess_step {pid : UInt32} :
    StoreStep db (db.resetRestartCountForProcess id pid).2 call := by
  unfold resetRestartCountForProcess
  split
  · exact .keep rfl rfl
  next record hget =>
    split
    · exact .keep rfl rfl
    · exact .keep (row_setRow_of_view hget rfl rfl) rfl

theorem updateHealth_step {status : String} {failures : UInt32} {checked : UInt64}
    {log : List HealthLogEntry} :
    StoreStep db (db.updateHealth id status failures checked log).2 call := by
  unfold updateHealth
  split
  · exact .keep rfl rfl
  next record hget =>
    split
    · exact .keep rfl rfl
    · exact .keep (row_setRow_of_view hget rfl rfl) rfl

end Database

theorem StoreCall.step_of_apply {db db' : Database} {call : StoreCall}
    (h : call.apply db = .ok db') : StoreStep db db' call := by
  cases call with
  | reserveName name containerId =>
    simp only [apply, Database.reserveName] at h
    cases hclaim : db.claimName name containerId with
    | error e =>
      rw [hclaim] at h
      cases h
    | ok result =>
      rw [hclaim] at h
      cases h
      obtain ⟨hrow, hop⟩ := Database.claimName_views hclaim
      exact .keep hrow hop
  | renameReservedName containerId name =>
    simp only [apply, Database.renameReservedName] at h
    split at h
    · cases h
    next hclaim =>
      cases h
      obtain ⟨hrow, hop⟩ := Database.claimName_views hclaim
      exact .keep hrow hop
  | releaseReservedName containerId =>
    cases h
    exact .keep rfl rfl
  | put record => exact Database.put_step h
  | putIfGenerationUnreserved record expected => exact Database.putIfGenerationUnreserved_step h
  | putReservedCreation procs record => exact Database.putReservedCreation_step h
  | putForMutation procs record operationId => exact Database.putForMutation_step h
  | setStatusForMutation procs id operationId status => exact Database.setStatusForMutation_step h
  | remove id =>
    cases h
    exact .remove id (by simp [Database.remove]) rfl
  | setLastExitCodeForMutation id operationId expected exitCode =>
    exact Database.updateForMutation_step h fun _ => ⟨rfl, rfl⟩
  | transitionStatusAndUserStoppedForMutation id operationId expected status next stopped =>
    exact Database.updateForMutation_step h fun _ => ⟨rfl, rfl⟩
  | setUserStoppedForMutation id operationId expected stopped =>
    exact Database.updateForMutation_step h fun _ => ⟨rfl, rfl⟩
  | reserveMutation procs id status expected operationId action =>
    exact Database.reserveMutation_step h
  | reReserveMutation id operationId action => exact Database.reReserveMutation_step h
  | markMutationEffectObserved procs id operationId succeeded freezer =>
    exact Database.markMutationEffectObserved_step h
  | deleteForMutation id operationId => exact Database.deleteForMutation_step h
  | acknowledgeMutation operationId =>
    cases h
    exact .acknowledge operationId rfl (by simp [Database.acknowledgeMutation])
  | finishMutation id operationId => exact Database.finishMutation_step h
  | updateExitForProcess id pid start exitCode =>
    simp only [apply] at h
    cases hupdate : db.updateExitForProcess id pid start exitCode with
    | error e =>
      rw [hupdate] at h
      cases h
    | ok result =>
      rw [hupdate] at h
      cases h
      exact Database.updateExitForProcess_step hupdate
  | resetRestartCountForProcess id pid =>
    cases h
    exact Database.resetRestartCountForProcess_step
  | updateHealth id status failures checked log =>
    cases h
    exact Database.updateHealth_step

def webRecord : ContainerRecord where
  id := "web"
  name := none
  pid := 0
  processStartTime := none
  status := "created"
  userStopped := false
  restartCount := 0
  lastExitCode := none
  healthStatus := "none"
  healthFailures := 0
  healthCheckedAtUnix := none
  healthLog := []
  runtimeInstanceId := none
  resourceGeneration := 0
  createdAtUnix := 0
  mutationGeneration := 1
  pendingMutation := none

end Ferrocrate.Container

import Ferrocrate.Container.Migration
import Ferrocrate.Lib.Runs

/-! The names of containers over whole runs of a store that is opened again and again
(`sqlite_container_store.rs`). -/
namespace Ferrocrate.Container
open Lib

def StoreCall.claimed : StoreCall → Option (String × String)
  | .reserveName name containerId => some (name, containerId)
  | .renameReservedName containerId name => some (name, containerId)
  | _ => none

namespace Database
variable {db db' : Database} {id name : String} {record : ContainerRecord} {call : StoreCall}

def nameOf (db : Database) (id : String) : Option (Option String) :=
  (db.containers.get id).map ContainerRecord.name

theorem nameOf_eq_some {record : ContainerRecord} (h : db.containers.get id = some record) :
    db.nameOf id = some record.name := by
  rw [nameOf, h]
  rfl

theorem nameOf_setRow (record : ContainerRecord) :
    (db.setRow record).nameOf = Function.update db.nameOf record.id (some record.name) := by
  funext id
  rw [nameOf, setRow, OrdMap.get_insert, Function.update_apply]
  split
  · rfl
  · rfl

theorem nameOf_setRow_of_name {record' : ContainerRecord} (h : db.containers.get id = some record)
    (hid : record'.id = record.id) (hname : record'.name = record.name) :
    (db.setRow record').nameOf = db.nameOf := by
  rw [nameOf_setRow, hid, hname, db.keyed id record h, ← nameOf_eq_some h, Function.update_eq_self]

theorem nameOf_deleteRow (id : String) :
    (db.deleteRow id).nameOf = Function.update db.nameOf id none := by
  funext id'
  rw [nameOf, deleteRow, OrdMap.get_erase, Function.update_apply]
  split
  · rfl
  · rfl

theorem get_dropClaims {containerId owner : String} {kept : Option String} :
    (db.dropClaims containerId kept).claims.get name = some owner ↔
      db.claims.get name = some owner ∧ (owner = containerId → kept = some name) := by
  rw [dropClaims, OrdMap.get_retain, Option.filter_eq_some_iff]
  simp [imp_iff_not_or]

inductive NameStep (call : StoreCall) (db db' : Database) : Prop
  | quiet (names : db'.nameOf = db.nameOf)
      (claims : ∀ name owner, db'.claims.get name = some owner → db.claims.get name = some owner)
  | claim (name containerId : String) (asked : call.claimed = some (name, containerId))
      (names : db'.nameOf = db.nameOf) (free : db.claims.get name = none)
      (claims : ∀ name' owner, db'.claims.get name' = some owner →
        db.claims.get name' = some owner ∨ name' = name ∧ owner = containerId)
      (held : db'.claims.get name = some containerId)
  | write (record : ContainerRecord)
      (names : db'.nameOf = Function.update db.nameOf record.id (some record.name))
      (unique : ∀ id name, id ≠ record.id → db.nameOf id = some (some name) →
        record.name ≠ some name)
      (claims : ∀ name owner, db'.claims.get name = some owner →
        db.claims.get name = some owner ∨ owner = record.id)
      (held : ∀ name, record.name = some name → db'.claims.get name = some record.id)
  | delete (id : String) (names : db'.nameOf = Function.update db.nameOf id none)
      (claims : ∀ name owner, db'.claims.get name = some owner →
        db.claims.get name = some owner ∧ owner ≠ id)

theorem NameStep.keep (names : db'.nameOf = db.nameOf) (claims : db'.claims = db.claims) :
    NameStep call db db' := .quiet names fun name owner h => by rwa [claims] at h

/-! ## Claims and whole rows -/

variable {containerId : String} {inserted : Bool}

theorem claimName_ok
    (h : db.claimName name containerId = .ok (inserted, db')) :
    (db.claims.get name = some containerId ∧ db' = db) ∨
      db.claims.get name = none ∧
        db' = { db with claims := db.claims.insert name containerId } := by
  rw [claimName] at h
  cases hclaim : db.claims.get name with
  | none =>
    rw [hclaim] at h
    cases h
    exact .inr ⟨rfl, rfl⟩
  | some owner =>
    simp only [hclaim] at h
    split at h
    next heq =>
      cases h
      exact .inl ⟨by rw [heq], rfl⟩
    next => cases h

theorem claimName_held
    (h : db.claimName name containerId = .ok (inserted, db')) :
    db'.containers = db.containers ∧ db'.claims.get name = some containerId ∧
      ∀ name' owner, db'.claims.get name' = some owner →
        db.claims.get name' = some owner ∨ name' = name ∧ owner = containerId := by
  cases claimName_ok h with
  | inl hheld =>
    obtain ⟨hclaim, rfl⟩ := hheld
    exact ⟨rfl, hclaim, fun _ _ h => .inl h⟩
  | inr hnew =>
    obtain ⟨hclaim, rfl⟩ := hnew
    refine ⟨rfl, OrdMap.get_insert_self _ _ _, fun name' owner h => ?_⟩
    rw [OrdMap.get_insert] at h
    split at h
    next heq =>
      cases h
      exact .inr ⟨heq, rfl⟩
    next => exact .inl h

theorem claim_step
    (h : db.claimName name containerId = .ok (inserted, db')) :
    NameStep (.reserveName name containerId) db db' := by
  cases claimName_ok h with
  | inl hheld =>
    obtain ⟨-, rfl⟩ := hheld
    exact .keep rfl rfl
  | inr hnew =>
    obtain ⟨-, hheld, hclaims⟩ := claimName_held h
    obtain ⟨hclaim, rfl⟩ := hnew
    exact .claim name containerId rfl rfl hclaim hclaims hheld

theorem renameReservedName_step
    (h : db.renameReservedName containerId name = .ok db') :
    NameStep (.renameReservedName containerId name) db db' := by
  rw [renameReservedName] at h
  split at h
  · cases h
  next inserted claimed hclaim =>
    cases h
    obtain ⟨hcontainers, hheld, hclaims⟩ := claimName_held hclaim
    have hnames : (claimed.dropClaims containerId (some name)).nameOf = db.nameOf := by
      funext id
      rw [nameOf, nameOf, ← hcontainers]
      rfl
    cases claimName_ok hclaim with
    | inl hold =>
      obtain ⟨-, rfl⟩ := hold
      exact .quiet hnames fun name' owner h' => (get_dropClaims.mp h').1
    | inr hnew =>
      exact .claim name containerId rfl hnames hnew.1
        (fun name' owner h' => hclaims name' owner (get_dropClaims.mp h').1)
        (get_dropClaims.mpr ⟨hheld, fun _ => rfl⟩)

theorem syncRecordName_ok (h : db.syncRecordName record = .ok db') :
    db'.containers = db.containers ∧
      (∀ name, record.name = some name → db'.claims.get name = some record.id) ∧
      ∀ name owner, db'.claims.get name = some owner →
        db.claims.get name = some owner ∨ owner = record.id := by
  rw [syncRecordName] at h
  cases hname : record.name with
  | none =>
    simp only [hname] at h
    cases h
    exact ⟨rfl, by simp, fun name owner h => .inl (get_dropClaims.mp h).1⟩
  | some name =>
    simp only [hname] at h
    split at h
    · cases h
    next inserted claimed hclaim =>
      cases h
      obtain ⟨hcontainers, hheld, hclaims⟩ := claimName_held hclaim
      refine ⟨hcontainers, ?_, fun name' owner h' => ?_⟩
      · intro name' heq
        cases heq
        exact get_dropClaims.mpr ⟨hheld, fun _ => rfl⟩
      · exact (hclaims name' owner (get_dropClaims.mp h').1).imp_right And.right

theorem writeRecord_ok (h : db.writeRecord record = .ok db') :
    db'.nameOf = Function.update db.nameOf record.id (some record.name) ∧
      (∀ id name, id ≠ record.id → db.nameOf id = some (some name) → record.name ≠ some name) ∧
      (∀ name owner, db'.claims.get name = some owner →
        db.claims.get name = some owner ∨ owner = record.id) ∧
      ∀ name, record.name = some name → db'.claims.get name = some record.id := by
  rw [writeRecord] at h
  split at h
  · cases h
  next synced hsync =>
    obtain ⟨hcontainers, hheld, hclaims⟩ := syncRecordName_ok hsync
    split at h
    · cases h
    next hindex =>
      cases h
      have hnames : synced.nameOf = db.nameOf := by
        funext id
        rw [nameOf, nameOf, hcontainers]
      refine ⟨by rw [nameOf_setRow, hnames], ?_, hclaims, hheld⟩
      intro id name hid hother hname
      obtain ⟨other, hget, hothername⟩ := Option.map_eq_some_iff.mp hother
      refine hindex (List.any_eq_true.mpr ⟨(id, other), ?_, ?_⟩)
      · rw [hcontainers]
        exact (db.containers.get_eq_some_iff).mp hget
      · simp [hid, hname, hothername]

theorem writeRecord_step (h : db.writeRecord record = .ok db') : NameStep call db db' := by
  obtain ⟨hnames, hunique, hclaims, hheld⟩ := writeRecord_ok h
  exact .write record hnames hunique hclaims hheld

/-! ## The other calls -/

theorem put_names (h : db.put record = .ok db') : NameStep call db db' := by
  unfold put at h
  split_ifs at h
  split at h
  · split_ifs at h
    exact writeRecord_step h
  · exact writeRecord_step h

variable {expected : UInt64}

theorem putIfGenerationUnreserved_names
    (h : db.putIfGenerationUnreserved record expected = .ok db') : NameStep call db db' := by
  unfold putIfGenerationUnreserved at h
  split at h
  · cases h
  · split_ifs at h
    exact writeRecord_step h

variable {operationId : OperationId}

theorem NameStep.setOperation {operation : LifecycleOperation}
    (h : NameStep call db db') : NameStep call db (db'.setOperation operationId operation) := by
  cases h with
  | quiet names claims => exact .quiet names claims
  | claim name containerId asked names free claims held =>
    exact .claim name containerId asked names free claims held
  | write record names unique claims held => exact .write record names unique claims held
  | delete id names claims => exact .delete id names claims

variable {procs : ProcessTable}

theorem putReservedCreation_names
    (h : db.putReservedCreation procs record = .ok db') : NameStep call db db' := by
  unfold putReservedCreation at h
  split at h
  · cases h
  · split_ifs at h
    split at h
    · cases h
    next hwrite =>
      cases h
      exact (writeRecord_step hwrite).setOperation

theorem putForMutation_names
    (h : db.putForMutation procs record operationId = .ok db') : NameStep call db db' := by
  unfold putForMutation at h
  split at h
  · cases h
  · split at h
    · cases h
    · split_ifs at h
      split at h
      · cases h
      · split at h
        · cases h
        next hwrite =>
          cases h
          exact (writeRecord_step hwrite).setOperation

theorem remove_names (id : String) : NameStep call db (db.remove id).2 := by
  refine .delete id (nameOf_deleteRow id) fun name owner h => ?_
  obtain ⟨hclaim, hkept⟩ := get_dropClaims.mp h
  exact ⟨hclaim, fun heq => by cases hkept heq⟩

theorem deleteForMutation_names
    (h : db.deleteForMutation id operationId = .ok db') : NameStep call db db' := by
  unfold deleteForMutation at h
  split at h
  · cases h
  · split_ifs at h
    split at h
    · cases h
    · cases h
      refine .delete id (nameOf_deleteRow id) fun name owner h => ?_
      obtain ⟨hclaim, hkept⟩ := get_dropClaims.mp h
      exact ⟨hclaim, fun heq => by cases hkept heq⟩

theorem setStatusForMutation_names
    {status : String} (h : db.setStatusForMutation procs id operationId status = .ok db') :
    NameStep call db db' := by
  unfold setStatusForMutation at h
  split at h
  · cases h
  next record hget =>
    split at h
    · cases h
    · split_ifs at h
      split at h
      · cases h
      · split_ifs at h
        cases h
        have hnames : (db.setRow { record with status := status }).nameOf = db.nameOf :=
          nameOf_setRow_of_name hget rfl rfl
        exact .keep hnames rfl

theorem updateForMutation_names
    {check : ContainerRecord → MutationReservation → Bool}
    {change : ContainerRecord → ContainerRecord}
    (h : db.updateForMutation id operationId expected check change = .ok db')
    (hchange : ∀ record, (change record).id = record.id ∧ (change record).name = record.name) :
    NameStep call db db' := by
  unfold updateForMutation at h
  split at h
  · cases h
  next record hget =>
    split at h
    · cases h
    · split_ifs at h
      cases h
      exact .keep (nameOf_setRow_of_name hget (hchange record).1 (hchange record).2) rfl

theorem reserveMutation_names {status action : String}
    (h : db.reserveMutation procs id status expected operationId action = .ok db') :
    NameStep call db db' := by
  unfold reserveMutation at h
  split at h
  · cases h
  next record hget =>
    split_ifs at h
    cases h
    refine .keep ?_ rfl
    exact nameOf_setRow_of_name hget rfl rfl

theorem reReserveMutation_names {action : String}
    (h : db.reReserveMutation id operationId action = .ok db') : NameStep call db db' := by
  unfold reReserveMutation at h
  split at h
  · cases h
  next record hget =>
    split at h
    · split_ifs at h
      cases h
      exact .keep rfl rfl
    · split at h
      · cases h
      · split_ifs at h
        cases h
        exact .keep (nameOf_setRow_of_name hget rfl rfl) rfl

theorem markMutationEffectObserved_names
    {succeeded : Bool} {freezer : Option Bool}
    (h : db.markMutationEffectObserved procs id operationId succeeded freezer = .ok db') :
    NameStep call db db' := by
  unfold markMutationEffectObserved at h
  split at h
  · cases h
  · split at h
    · split_ifs at h
      cases h
      exact .keep rfl rfl
    · split at h
      · cases h
      · cases h
        exact .keep rfl rfl

theorem finishMutation_names
    (h : db.finishMutation id operationId = .ok db') : NameStep call db db' := by
  unfold finishMutation at h
  split at h
  · cases h
    exact .keep rfl rfl
  next record hget =>
    split at h
    · split_ifs at h
      cases h
      exact .keep rfl rfl
    · split_ifs at h
      cases h
      exact .keep (nameOf_setRow_of_name hget rfl rfl) rfl

theorem updateExitForProcess_names {pid : UInt32} {start : Option UInt64} {exitCode : Int}
    {status : Option String}
    (h : db.updateExitForProcess id pid start exitCode = .ok (status, db')) :
    NameStep call db db' := by
  unfold updateExitForProcess at h
  split at h
  · cases h
    exact .keep rfl rfl
  next record hget =>
    split_ifs at h
    · cases h
      exact .keep rfl rfl
    all_goals
      cases h
      exact .keep (nameOf_setRow_of_name hget rfl rfl) rfl

theorem resetRestartCountForProcess_names {pid : UInt32} :
    NameStep call db (db.resetRestartCountForProcess id pid).2 := by
  unfold resetRestartCountForProcess
  split
  · exact .keep rfl rfl
  next record hget =>
    split
    · exact .keep rfl rfl
    · exact .keep (nameOf_setRow_of_name hget rfl rfl) rfl

theorem updateHealth_names {status : String} {failures : UInt32} {checked : UInt64}
    {log : List HealthLogEntry} :
    NameStep call db (db.updateHealth id status failures checked log).2 := by
  unfold updateHealth
  split
  · exact .keep rfl rfl
  next record hget =>
    split
    · exact .keep rfl rfl
    · exact .keep (nameOf_setRow_of_name hget rfl rfl) rfl

end Database

theorem StoreCall.names_of_apply {db db' : Database} {call : StoreCall}
    (h : call.apply db = .ok db') : Database.NameStep call db db' := by
  cases call with
  | reserveName name containerId =>
    simp only [apply, Database.reserveName] at h
    cases hclaim : db.claimName name containerId with
    | error e =>
      rw [hclaim] at h
      cases h
    | ok result =>
      rw [hclaim] at h
      cases h
      exact Database.claim_step hclaim
  | renameReservedName containerId name => exact Database.renameReservedName_step h
  | releaseReservedName containerId =>
    cases h
    exact .quiet rfl fun name owner h => (Database.get_dropClaims.mp h).1
  | put record => exact Database.put_names h
  | putIfGenerationUnreserved record expected => exact Database.putIfGenerationUnreserved_names h
  | putReservedCreation procs record => exact Database.putReservedCreation_names h
  | putForMutation procs record operationId => exact Database.putForMutation_names h
  | setStatusForMutation procs id operationId status => exact Database.setStatusForMutation_names h
  | remove id =>
    cases h
    exact Database.remove_names id
  | setLastExitCodeForMutation id operationId expected exitCode =>
    exact Database.updateForMutation_names h fun _ => ⟨rfl, rfl⟩
  | transitionStatusAndUserStoppedForMutation id operationId expected status next stopped =>
    exact Database.updateForMutation_names h fun _ => ⟨rfl, rfl⟩
  | setUserStoppedForMutation id operationId expected stopped =>
    exact Database.updateForMutation_names h fun _ => ⟨rfl, rfl⟩
  | reserveMutation procs id status expected operationId action =>
    exact Database.reserveMutation_names h
  | reReserveMutation id operationId action => exact Database.reReserveMutation_names h
  | markMutationEffectObserved procs id operationId succeeded freezer =>
    exact Database.markMutationEffectObserved_names h
  | deleteForMutation id operationId => exact Database.deleteForMutation_names h
  | acknowledgeMutation operationId =>
    cases h
    exact .keep rfl rfl
  | finishMutation id operationId => exact Database.finishMutation_names h
  | updateExitForProcess id pid start exitCode =>
    simp only [apply] at h
    cases hupdate : db.updateExitForProcess id pid start exitCode with
    | error e =>
      rw [hupdate] at h
      cases h
    | ok result =>
      rw [hupdate] at h
      cases h
      exact Database.updateExitForProcess_names hupdate
  | resetRestartCountForProcess id pid =>
    cases h
    exact Database.resetRestartCountForProcess_names
  | updateHealth id status failures checked log =>
    cases h
    exact Database.updateHealth_names

/-! ## Reopening -/

namespace Database
variable {db db' : Database} {id name : String} {record : ContainerRecord} {groups : GroupOrder}

def NamesDistinct (db : Database) : Prop :=
  ∀ id id' name, db.nameOf id = some (some name) → db.nameOf id' = some (some name) → id = id'

/-- The store opens with the same rows, every name is claimed by its container, and to open it again
changes nothing. -/
def Reopens (db : Database) : Prop :=
  ∀ groups, ∃ db', db.openStore groups = .ok db' ∧ db'.containers = db.containers ∧
    db'.operations = db.operations ∧
    (∀ id name, db.nameOf id = some (some name) → db'.claims.get name = some id) ∧
    ∀ groups', db'.openStore groups' = .ok db'

def NoStrays (db : Database) : Prop :=
  ∀ id name owner, db.nameOf id = some (some name) → db.claims.get name = some owner →
    db.nameOf owner ≠ none

theorem nameOf_eq_none : db.nameOf id = none ↔ db.containers.get id = none := Option.map_eq_none_iff

theorem nameOf_of_mem (h : record ∈ db.records) : db.nameOf record.id = some record.name :=
  nameOf_eq_some (mem_records.mp h)

theorem exists_of_nameOf (h : db.nameOf id = some (some name)) :
    ∃ record ∈ db.records, record.name = some name ∧ record.id = id := by
  obtain ⟨record, hget, hname⟩ := Option.map_eq_some_iff.mp h
  exact ⟨record, mem_records_of_get hget, hname, db.keyed id record hget⟩

theorem get_strayClaims {owner : String} : db.strayClaims.get name = some owner ↔
    db.claims.get name = some owner ∧ db.nameOf owner = none := by
  rw [strayClaims, OrdMap.get_retain, Option.filter_eq_some_iff, nameOf_eq_none,
    Option.isNone_iff_eq_none]

theorem noStrays_iff : db.NoStrays ↔ ∀ name ∈ db.names, db.strayClaims.get name = none := by
  constructor
  · intro h name hname
    obtain ⟨record, hrecord, hrecordname⟩ := mem_names.mp hname
    cases hstray : db.strayClaims.get name with
    | none => rfl
    | some owner =>
      obtain ⟨hclaim, hnone⟩ := get_strayClaims.mp hstray
      exact absurd hnone (h record.id name owner (hrecordname ▸ nameOf_of_mem hrecord) hclaim)
  · intro h id name owner hname hclaim hnone
    obtain ⟨record, hrecord, hrecordname, -⟩ := exists_of_nameOf hname
    have hstray := h name (mem_names.mpr ⟨record, hrecord, hrecordname⟩)
    rw [get_strayClaims.mpr ⟨hclaim, hnone⟩] at hstray
    cases hstray

theorem NamesDistinct.oldest (h : db.NamesDistinct) (hmem : record ∈ db.records) :
    db.Oldest record := by
  intro name hname other hother hothername
  have hid := h record.id other.id name (hname ▸ nameOf_of_mem hmem)
    (hothername ▸ nameOf_of_mem hother)
  rw [eq_of_id hmem hother hid]
  exact le_refl _

theorem NamesDistinct.jobs_eq_nil (h : db.NamesDistinct) : db.jobs groups = [] := by
  refine List.eq_nil_iff_forall_not_mem.mpr fun job hjob => ?_
  obtain ⟨name, -, hrenamed⟩ := List.mem_flatMap.mp hjob
  have hmem := (mem_renamed hrenamed).1
  exact (mem_jobs_iff groups hmem).mp (List.mem_map_of_mem hjob) (h.oldest hmem)

structure Opened (db db' : Database) : Prop where
  containers : db'.containers = db.containers
  operations : db'.operations = db.operations
  claims : ∀ name id, db'.claims.get name = some id ↔
    db.nameOf id = some (some name) ∨ db.strayClaims.get name = some id

theorem NamesDistinct.opened (h : db.NamesDistinct) (hopen : db.openStore groups = .ok db') :
    Opened db db' := by
  obtain ⟨picks, hrepair, hwritten⟩ := openStore_spec hopen
  have hsame {record : ContainerRecord} (hmem : record ∈ db.records) :
      rename picks record = record := rename_of_oldest hrepair hmem (h.oldest hmem)
  have hrecords : db.records.map (rename picks) = db.records := by
    conv_rhs => rw [← List.map_id db.records]
    exact List.map_congr_left fun record hmem => hsame hmem
  refine ⟨OrdMap.ext_get fun id => ?_, hwritten.operations, fun name id => ?_⟩
  · rw [hwritten.get_eq fun record => mem_records]
    cases hget : db.containers.get id with
    | none => rfl
    | some record => rw [Option.map_some, hsame (mem_records_of_get hget)]
  · rw [hwritten.claims, hrecords]
    refine or_congr_left ?_
    constructor
    · intro hrecord
      obtain ⟨record, hmem, hname, rfl⟩ := hrecord
      exact hname ▸ nameOf_of_mem hmem
    · exact exists_of_nameOf

theorem Opened.nameOf (h : Opened db db') : db'.nameOf = db.nameOf := by
  funext id
  rw [Database.nameOf, Database.nameOf, h.containers]

theorem Opened.strayClaims (h : Opened db db') {owner : String} :
    db'.strayClaims.get name = some owner ↔ db.strayClaims.get name = some owner := by
  rw [get_strayClaims, h.nameOf, h.claims]
  constructor
  · intro hstray
    obtain ⟨hclaim, hnone⟩ := hstray
    refine hclaim.resolve_left fun hname => ?_
    rw [hname] at hnone
    cases hnone
  · exact fun hstray => ⟨.inr hstray, (get_strayClaims.mp hstray).2⟩

theorem Opened.noStrays (h : Opened db db') (hstrays : db.NoStrays) : db'.NoStrays := by
  intro id name owner hname hclaim
  rw [h.nameOf] at hname ⊢
  cases (h.claims name owner).mp hclaim with
  | inl howner => rw [howner]; exact Option.some_ne_none _
  | inr hstray => exact hstrays id name owner hname (get_strayClaims.mp hstray).1

theorem NamesDistinct.openStore_ok_iff (h : db.NamesDistinct) :
    (∃ db', db.openStore groups = .ok db') ↔ db.NoStrays := by
  rw [Database.openStore_ok_iff, h.jobs_eq_nil, noStrays_iff]
  exact and_iff_right (by simp)

theorem NamesDistinct.reopens_iff (h : db.NamesDistinct) : db.Reopens ↔ db.NoStrays := by
  constructor
  · intro hreopens
    obtain ⟨db', hopen, -⟩ := hreopens ⟨id, fun _ => .refl _⟩
    exact h.openStore_ok_iff.mp ⟨db', hopen⟩
  · intro hstrays groups
    obtain ⟨db', hopen⟩ := h.openStore_ok_iff.mpr hstrays
    have hopened := h.opened hopen
    refine ⟨db', hopen, hopened.containers, hopened.operations,
      fun id name hname => (hopened.claims name id).mpr (.inl hname), fun groups' => ?_⟩
    have hdistinct : db'.NamesDistinct := by
      intro id id' name hid hid'
      rw [hopened.nameOf] at hid hid'
      exact h id id' name hid hid'
    obtain ⟨db'', hagain⟩ := hdistinct.openStore_ok_iff.mpr (hopened.noStrays hstrays)
    have hopened' := hdistinct.opened hagain
    have hclaims (name : String) : db''.claims.get name = db'.claims.get name := by
      refine Option.ext fun owner => ?_
      rw [hopened'.claims, hopened.claims, hopened.nameOf, hopened.strayClaims]
    have hsame : db'' = db' := ext_get (fun id => by rw [hopened'.containers])
      hopened'.operations hclaims
    rw [hagain, hsame]

end Database

/-! ## Runs -/

inductive StoreTurn where
  | call (call : StoreCall)
  | opening (groups : GroupOrder)

namespace Database
variable {db db' : Database} {call : StoreCall}

def next (db : Database) : StoreTurn → Database
  | .call call => db.step call
  | .opening groups =>
    match db.openStore groups with
    | .ok db' => db'
    | .error _ => db

def takesName (db : Database) (name containerId : String) : Bool :=
  (db.containers.get containerId).isNone && (db.claims.get name).isNone && db.names.contains name

def displaces (db : Database) : StoreTurn → Bool
  | .call call => call.claimed.any fun claim => db.takesName claim.1 claim.2
  | .opening _ => false

theorem NamesDistinct.nameStep (h : db.NamesDistinct) (hstep : NameStep call db db') :
    db'.NamesDistinct := by
  intro id id' name hid hid'
  cases hstep with
  | quiet names claims =>
    rw [names] at hid hid'
    exact h id id' name hid hid'
  | claim _ _ _ names =>
    rw [names] at hid hid'
    exact h id id' name hid hid'
  | write record names unique =>
    rw [names, Function.update_apply] at hid hid'
    by_cases hrecord : id = record.id
    · by_cases hrecord' : id' = record.id
      · rw [hrecord, hrecord']
      · rw [if_pos hrecord] at hid
        rw [if_neg hrecord'] at hid'
        exact absurd (Option.some.inj hid) (unique id' name hrecord' hid')
    · by_cases hrecord' : id' = record.id
      · rw [if_pos hrecord'] at hid'
        rw [if_neg hrecord] at hid
        exact absurd (Option.some.inj hid') (unique id name hrecord hid)
      · rw [if_neg hrecord] at hid
        rw [if_neg hrecord'] at hid'
        exact h id id' name hid hid'
  | delete removed names =>
    have hkept {id : String} (hid : db'.nameOf id = some (some name)) :
        db.nameOf id = some (some name) := by
      rw [names, Function.update_apply] at hid
      split at hid
      · cases hid
      · exact hid
    exact h id id' name (hkept hid) (hkept hid')

variable {name containerId : String}

theorem takesName_iff : db.takesName name containerId = true ↔
    db.nameOf containerId = none ∧ db.claims.get name = none ∧
      ∃ id, db.nameOf id = some (some name) := by
  rw [takesName, Bool.and_eq_true, Bool.and_eq_true, Option.isNone_iff_eq_none,
    Option.isNone_iff_eq_none, nameOf_eq_none, List.contains_iff_mem, mem_names, and_assoc]
  refine and_congr_right fun _ => and_congr_right fun _ => ?_
  constructor
  · intro h
    obtain ⟨record, hrecord, hname⟩ := h
    exact ⟨record.id, hname ▸ nameOf_of_mem hrecord⟩
  · intro h
    obtain ⟨id, hname⟩ := h
    obtain ⟨record, hrecord, hrecordname, -⟩ := exists_of_nameOf hname
    exact ⟨record, hrecord, hrecordname⟩

theorem NoStrays.nameStep (h : db.NoStrays) (hstep : NameStep call db db')
    (hcalm : db.displaces (.call call) = false) : db'.NoStrays := by
  intro id name owner hname howner
  cases hstep with
  | quiet names claims =>
    rw [names] at hname ⊢
    exact h id name owner hname (claims name owner howner)
  | claim claimed containerId asked names free claims held =>
    rw [names] at hname ⊢
    cases claims name owner howner with
    | inl hold => exact h id name owner hname hold
    | inr hnew =>
      obtain ⟨rfl, rfl⟩ := hnew
      intro hnone
      rw [displaces, asked, Option.any_some, takesName_iff.mpr ⟨hnone, free, id, hname⟩] at hcalm
      cases hcalm
  | write record names unique claims held =>
    rw [names, Function.update_apply] at hname ⊢
    split
    · exact Option.some_ne_none _
    next hne =>
      split at hname
      next hrecord =>
        have hmine := held name (Option.some.inj hname)
        rw [howner] at hmine
        exact absurd (Option.some.inj hmine) hne
      next =>
        exact h id name owner hname ((claims name owner howner).resolve_right hne)
  | delete removed names claims =>
    obtain ⟨hold, hne⟩ := claims name owner howner
    rw [names, Function.update_apply] at hname ⊢
    rw [if_neg hne]
    split at hname
    · cases hname
    · exact h id name owner hname hold

theorem NamesDistinct.next (h : db.NamesDistinct) (turn : StoreTurn) :
    (db.next turn).NamesDistinct := by
  cases turn with
  | call call =>
    rw [Database.next, step]
    cases happly : call.apply db with
    | error e => exact h
    | ok db' => exact h.nameStep (StoreCall.names_of_apply happly)
  | opening groups =>
    rw [Database.next]
    cases hopen : db.openStore groups with
    | error e => exact h
    | ok db' =>
      intro id id' name hid hid'
      rw [(h.opened hopen).nameOf] at hid hid'
      exact h id id' name hid hid'

theorem NoStrays.next (h : db.NoStrays) (hdistinct : db.NamesDistinct) {turn : StoreTurn}
    (hcalm : db.displaces turn = false) : (db.next turn).NoStrays := by
  cases turn with
  | call call =>
    rw [Database.next, step]
    cases happly : call.apply db with
    | error e => exact h
    | ok db' => exact h.nameStep (StoreCall.names_of_apply happly) hcalm
  | opening groups =>
    rw [Database.next]
    cases hopen : db.openStore groups with
    | error e => exact h
    | ok db' => exact (hdistinct.opened hopen).noStrays h

theorem claimName_of_free (h : db.claims.get name = none) :
    db.claimName name containerId
      = .ok (true, { db with claims := db.claims.insert name containerId }) := by
  rw [claimName, h]

theorem next_of_displaces {turn : StoreTurn} (h : db.displaces turn = true) :
    ¬ (db.next turn).NoStrays := by
  have hstray {db' : Database} {name containerId : String}
      (htakes : db.takesName name containerId = true) (hnames : db'.nameOf = db.nameOf)
      (hclaim : db'.claims.get name = some containerId) : ¬ db'.NoStrays := by
    obtain ⟨hnone, -, id, hname⟩ := takesName_iff.mp htakes
    intro hstrays
    refine hstrays id name containerId (by rw [hnames, hname]) hclaim ?_
    rw [hnames, hnone]
  cases turn with
  | opening groups => cases h
  | call call =>
    cases call with
    | reserveName name containerId =>
      have hfree := (takesName_iff.mp h).2.1
      have hnext : db.next (.call (.reserveName name containerId))
          = { db with claims := db.claims.insert name containerId } := by
        simp only [Database.next, step, StoreCall.apply, reserveName, claimName_of_free hfree]
        rfl
      rw [hnext]
      exact hstray h rfl (OrdMap.get_insert_self _ _ _)
    | renameReservedName containerId name =>
      have hfree := (takesName_iff.mp h).2.1
      have hnext : db.next (.call (.renameReservedName containerId name))
          = dropClaims { db with claims := db.claims.insert name containerId } containerId
              (some name) := by
        simp only [Database.next, step, StoreCall.apply, renameReservedName,
          claimName_of_free hfree]
      rw [hnext]
      exact hstray h rfl (get_dropClaims.mpr ⟨OrdMap.get_insert_self _ _ _, fun _ => rfl⟩)
    | _ => cases h

theorem namesDistinct_new : Database.new.NamesDistinct := by
  intro id id' name hid
  cases hid

theorem noStrays_new : Database.new.NoStrays := by
  intro id name owner hname
  cases hname

theorem reopens_throughout_iff (turns : List StoreTurn) (h : db.NamesDistinct)
    (hstrays : db.NoStrays) :
    Runs.Throughout Database.next (fun db => db.NamesDistinct ∧ db.Reopens) db turns ↔
      Runs.Along Database.next (fun db turn => db.displaces turn = false) db turns := by
  induction turns generalizing db with
  | nil => exact iff_of_true ⟨h, h.reopens_iff.mpr hstrays⟩ trivial
  | cons turn turns ih =>
    constructor
    · intro hall
      have hnext := hall.2.head
      have hcalm : db.displaces turn = false := by
        by_contra hdisplaces
        exact next_of_displaces (Bool.eq_true_of_not_eq_false hdisplaces)
          (hnext.1.reopens_iff.mp hnext.2)
      exact ⟨hcalm, (ih (h.next turn) (hstrays.next h hcalm)).mp hall.2⟩
    · intro hcalm
      exact ⟨⟨h, h.reopens_iff.mpr hstrays⟩,
        (ih (h.next turn) (hstrays.next h hcalm.1)).mpr hcalm.2⟩

theorem list_eq_iff : db.list = db.records ↔ db.records.length ≤ 100 := List.take_eq_self_iff _

theorem sorted_records (db : Database) :
    (db.records.map ContainerRecord.id).Pairwise (· < ·) := by
  rw [map_id_records, OrdMap.keys, List.pairwise_map]
  exact db.containers.sorted

end Database

end Ferrocrate.Container

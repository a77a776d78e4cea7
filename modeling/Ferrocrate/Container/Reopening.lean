import Ferrocrate.Container.Names

/-! Opening a database from before the names were unique (`sqlite_container_store.rs`), and what a
store promises of names over all its runs. -/
namespace Ferrocrate.Container
open Lib

def GroupOrder.first (name : String) : GroupOrder where
  order names := if name ∈ names then name :: names.erase name else names
  perm names := by
    split
    · next h => exact (List.perm_cons_erase h).symm
    · exact .refl _

theorem newName_perm {picks picks' : List (String × String)} (h : picks.Perm picks')
    (hnodup : (picks.map Prod.fst).Nodup) : newName picks = newName picks' := by
  funext id
  refine Option.ext fun name => ?_
  rw [newName, newName, find_key_eq_some_iff hnodup,
    find_key_eq_some_iff ((h.map Prod.fst).nodup_iff.mp hnodup), h.mem_iff]

namespace Database
variable {db db' : Database} {name name' : String} {picks picks' : List (String × String)}

def legacy (db : Database) : Database := { db with claims := .empty }

def alone (db : Database) (name : String) : Option (List (String × String)) :=
  repair db.occupied (db.renamed name)

/-- No identifier is cut inside a character, and no two groups come to the same new name when each
is the only one. -/
structure RepairsApart (db : Database) : Prop where
  cut : ∀ name ∈ db.names, ∀ job ∈ db.renamed name, (shortId job.2.id).isSome
  apart : ∀ name ∈ db.names, ∀ name' ∈ db.names, name ≠ name' →
    ∀ picks picks', db.alone name = some picks → db.alone name' = some picks' →
      ∀ replacement ∈ picks.map Prod.snd, replacement ∉ picks'.map Prod.snd

structure Repaired (db db' : Database) : Prop where
  rows : ∀ id, ∃ name : ContainerRecord → Option String, db'.containers.get id =
    (db.containers.get id).map fun record => { record with name := name record }
  oldest : ∀ record ∈ db.records, db.Oldest record → db'.containers.get record.id = some record
  distinct : db'.NamesDistinct

theorem namesDistinct_of_nodup (h : db.names.Nodup) : db.NamesDistinct := by
  intro id id' name hid hid'
  obtain ⟨record, hrecord, hname, rfl⟩ := exists_of_nameOf hid
  obtain ⟨record', hrecord', hname', rfl⟩ := exists_of_nameOf hid'
  rw [(nodup_filterMap_iff (List.Nodup.of_map _ db.nodup_ids)).mp h record hrecord record' hrecord'
    name hname hname']

theorem rename_eq (picks : List (String × String)) (record : ContainerRecord) :
    rename picks record
      = { record with name := (newName picks record.id).elim record.name some } := by
  rw [rename]
  cases newName picks record.id with
  | none => rfl
  | some name => rfl

theorem repaired_of_openStore {groups : GroupOrder} (h : db.openStore groups = .ok db') :
    Repaired db db' := by
  obtain ⟨picks, hrepair, hwritten⟩ := openStore_spec h
  have hget (id : String) : db'.containers.get id = (db.containers.get id).map (rename picks) :=
    hwritten.get_eq fun record => mem_records
  refine ⟨fun id => ⟨fun record => (newName picks record.id).elim record.name some, ?_⟩, ?_,
    namesDistinct_of_nodup (nodup_names_of_written hrepair hwritten)⟩
  · rw [hget]
    exact congrArg (Option.map · _) (funext fun record => rename_eq picks record)
  · intro record hrecord holdest
    rw [hget, mem_records.mp hrecord, Option.map_some, rename_of_oldest hrepair hrecord holdest]

theorem repair_first (hname : name ∈ db.names)
    (h : repair db.occupied (db.jobs (.first name)) = some picks) :
    ∃ first rest, db.alone name = some first ∧ picks = first ++ rest := by
  have horder : (GroupOrder.first name).order db.names.dedup = name :: db.names.dedup.erase name :=
    if_pos (List.mem_dedup.mpr hname)
  rw [jobs, horder, List.flatMap_cons, repair_append] at h
  obtain ⟨first, hfirst, h⟩ := Option.bind_eq_some_iff.mp h
  obtain ⟨rest, -, rfl⟩ := Option.map_eq_some_iff.mp h
  exact ⟨first, rest, hfirst, rfl⟩

theorem name_of_alone (h : ∀ groups, db.openStore groups = .ok db') (hname : name ∈ db.names)
    (halone : db.alone name = some picks) {pick : String × String} (hpick : pick ∈ picks) :
    ∃ record ∈ db.records, record.id = pick.1 ∧ record.name = some name ∧
      db'.nameOf pick.1 = some (some pick.2) := by
  obtain ⟨all, hrepair, hwritten⟩ := openStore_spec (h (.first name))
  obtain ⟨first, rest, hfirst, rfl⟩ := repair_first hname hrepair
  cases halone.symm.trans hfirst
  have hid : pick.1 ∈ picks.map Prod.fst := List.mem_map_of_mem hpick
  rw [(repair_spec halone).1] at hid
  obtain ⟨job, hjob, hjobid⟩ := List.mem_map.mp hid
  obtain ⟨hrecord, hrecordname⟩ := mem_renamed hjob
  refine ⟨job.2, hrecord, hjobid, hrecordname, ?_⟩
  have hnew : newName (picks ++ rest) job.2.id = some pick.2 :=
    (find_key_eq_some_iff (nodup_picks hrepair)).mpr (by
      rw [hjobid]
      exact List.mem_append_left _ hpick)
  have hget : db'.containers.get job.2.id = some (rename (picks ++ rest) job.2) := by
    rw [hwritten.get_eq fun record => mem_records]
    exact congrArg (Option.map _) (mem_records.mp hrecord)
  rw [← hjobid, nameOf_eq_some hget, rename_eq, hnew]
  rfl

theorem repairsApart_of_openStore (h : ∀ groups, db.openStore groups = .ok db') :
    db.RepairsApart where
  cut name hname job hjob := by
    obtain ⟨hcut, -⟩ := openStore_ok_iff.mp ⟨db', h (.first name)⟩
    exact hcut job (List.mem_flatMap.mpr ⟨name, mem_order.mpr hname, hjob⟩)
  apart name hname name' hname' hne picks picks' halone halone' replacement hmem hmem' := by
    obtain ⟨pick, hpick, rfl⟩ := List.mem_map.mp hmem
    obtain ⟨pick', hpick', hsame⟩ := List.mem_map.mp hmem'
    obtain ⟨record, hrecord, hid, hrecordname, hnamed⟩ := name_of_alone h hname halone hpick
    obtain ⟨record', hrecord', hid', hrecordname', hnamed'⟩ := name_of_alone h hname' halone' hpick'
    rw [hsame] at hnamed'
    have hids := (repaired_of_openStore (h (.first name))).distinct _ _ _ hnamed hnamed'
    rw [eq_of_id hrecord hrecord' (by rw [hid, hid', hids]), hrecordname'] at hrecordname
    exact hne (Option.some.inj hrecordname).symm

theorem RepairsApart.repair_jobs (h : db.RepairsApart) (groups : GroupOrder) :
    repair db.occupied (db.jobs groups)
      = some ((groups.order db.names.dedup).flatMap fun name => (db.alone name).getD []) := by
  have halone {name : String} (hname : name ∈ db.names) :
      db.alone name = some ((db.alone name).getD []) := by
    obtain ⟨picks, hpicks⟩ := repair_isSome_iff.mpr (h.cut name hname)
    rw [alone, hpicks]
    rfl
  refine repair_flatMap (List.Subset.refl _) (fun name hname => halone (mem_order.mp hname)) ?_
    fun name hname => (repair_spec (halone (mem_order.mp hname))).2.2
  have hnodup := (groups.perm db.names.dedup).nodup_iff.mpr (List.nodup_dedup _)
  refine hnodup.pairwise_of_forall_ne fun name hname name' hname' hne => ?_
  have hstored := mem_order.mp hname
  have hstored' := mem_order.mp hname'
  exact h.apart name hstored name' hstored' hne _ _ (halone hstored) (halone hstored')

theorem RepairsApart.openStore_eq (h : db.RepairsApart) (groups groups' : GroupOrder) :
    db.openStore groups = db.openStore groups' := by
  have horders := (groups.perm db.names.dedup).trans (groups'.perm db.names.dedup).symm
  have hperm := horders.flatMap_right fun name => (db.alone name).getD []
  have hrename := newName_perm hperm (nodup_picks (h.repair_jobs groups))
  have hsame : rename ((groups.order db.names.dedup).flatMap fun name => (db.alone name).getD [])
      = rename ((groups'.order db.names.dedup).flatMap fun name => (db.alone name).getD []) := by
    funext record
    rw [rename_eq, rename_eq, hrename]
  rw [openStore, openStore, migrateContainerNames, migrateContainerNames, h.repair_jobs,
    h.repair_jobs]
  simp only [hsame]

theorem legacy_repaired_iff (db : Database) :
    (∃ db', (∀ groups, db.legacy.openStore groups = .ok db') ∧ db.legacy.Repaired db') ↔
      db.legacy.RepairsApart := by
  constructor
  · intro h
    obtain ⟨db', h, -⟩ := h
    exact repairsApart_of_openStore h
  · intro h
    have hstray : ∀ name ∈ db.legacy.names, db.legacy.strayClaims.get name = none := by
      intro name _
      rw [strayClaims, OrdMap.get_retain]
      rfl
    have hcut : ∀ job ∈ db.legacy.jobs (.first ""), (shortId job.2.id).isSome := by
      intro job hjob
      obtain ⟨name, hname, hjob⟩ := List.mem_flatMap.mp hjob
      exact h.cut name (mem_order.mp hname) job hjob
    obtain ⟨db', hopen⟩ := openStore_ok_iff.mpr ⟨hcut, hstray⟩
    refine ⟨db', fun groups => ?_, repaired_of_openStore hopen⟩
    rw [h.openStore_eq groups (.first ""), hopen]

end Database

/-- **Names and reopening.** In a run from an empty store names are always distinct, and the store
opens again in every state, the rows unchanged and every name claimed, exactly when no call takes a
name from a stored container for one that is not stored. `list` is everything up to a hundred
containers. A database from before the names were unique is repaired in one way exactly when no
identifier is cut inside a character and its groups do not come to the same new name. -/
theorem names_and_reopening (turns : List StoreTurn) (db : Database) :
    (Runs.Throughout Database.next (fun db => db.NamesDistinct ∧ db.Reopens) .new turns ↔
      Runs.Along Database.next (fun db turn => db.displaces turn = false) .new turns) ∧
    ((db.records.map ContainerRecord.id).Pairwise (· < ·) ∧
      (db.list = db.records ↔ db.records.length ≤ 100)) ∧
    ((∃ db', (∀ groups, db.legacy.openStore groups = .ok db') ∧ db.legacy.Repaired db') ↔
      db.legacy.RepairsApart) :=
  ⟨Database.reopens_throughout_iff turns Database.namesDistinct_new Database.noStrays_new,
    ⟨db.sorted_records, Database.list_eq_iff⟩, db.legacy_repaired_iff⟩

def claimedByAnother : List StoreTurn :=
  [.call (.put { webRecord with name := some "web" }), .call (.releaseReservedName "web"),
    .call (.reserveName "web" "other")]

def sameReplacement : Database :=
  let named (id name : String) (createdAtUnix : UInt64) : ContainerRecord :=
    { webRecord with id := id, name := some name, createdAtUnix := createdAtUnix }
  [named "1" "a" 1, named "b-c" "a" 2, named "2" "a-b" 1, named "c" "a-b" 2].foldl
    Database.setRow .new

theorem claimed_name_does_not_open :
    (¬ ∀ turns : List StoreTurn,
      Runs.Throughout Database.next (fun db => db.NamesDistinct ∧ db.Reopens) .new turns) ∧
    ¬ ∀ db : Database, ∃ db', ∀ groups, db.legacy.openStore groups = .ok db' := by
  constructor
  · intro h
    obtain ⟨db', hopen, -⟩ := (h claimedByAnother).last.2 (.first "web")
    have hfails : ((claimedByAnother.foldl Database.next .new).openStore
        (.first "web")).toOption.isNone = true := by decide +kernel
    rw [hopen] at hfails
    cases hfails
  · intro h
    obtain ⟨db', hopen⟩ := h sameReplacement
    have hdiffer : ((sameReplacement.legacy.openStore (.first "a")).toOption.map fun db =>
          db.nameOf "c")
        ≠ (sameReplacement.legacy.openStore (.first "a-b")).toOption.map fun db =>
          db.nameOf "c" := by decide +kernel
    rw [hopen, hopen] at hdiffer
    exact hdiffer rfl

end Ferrocrate.Container

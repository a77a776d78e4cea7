import Mathlib.Data.List.Pairwise
import Mathlib.Data.Prod.Lex
import Ferrocrate.Container.StoreStep
import Ferrocrate.Lib.Program
import Ferrocrate.Lib.Text

/-! Opening a container store (`sqlite_container_store.rs`): names that several containers have are
repaired, and the name claims of the containers are written anew. -/
namespace Ferrocrate.Container
open Lib

inductive OpenError where
  /-- Slicing inside a character. -/
  | panic
  | store (error : ContainerStoreError)
  deriving DecidableEq

structure GroupOrder where
  order : List String → List String
  perm : ∀ names, (order names).Perm names

/-! ## Replacement names -/

def bytesPrefix : Nat → List Char → Option (List Char)
  | _, [] => some []
  | room, c :: cs =>
    if room = 0 then some []
    else if c.utf8Size ≤ room then (bytesPrefix (room - c.utf8Size) cs).map (c :: ·)
    else none

def shortId (id : String) : Option String := (bytesPrefix 12 id.toList).map String.ofList

def candidate (base : String) : Nat → String
  | 0 => base
  | turn + 1 => base ++ "-" ++ toString (turn + 2)

def replacementName (occupied : List String) (base : String) : String :=
  match (List.range (occupied.length + 1)).find? fun turn => candidate base turn ∉ occupied with
  | some turn => candidate base turn
  | none => base

def repair : List String → List (String × ContainerRecord) → Option (List (String × String))
  | _, [] => some []
  | occupied, (name, record) :: rest => do
    let short ← shortId record.id
    let replacement := replacementName occupied (name ++ "-" ++ short)
    let picks ← repair (replacement :: occupied) rest
    some ((record.id, replacement) :: picks)

def age (record : ContainerRecord) : Nat ×ₗ String :=
  toLex (record.createdAtUnix.toNat, record.id)

def older (a b : ContainerRecord) : Prop := age a ≤ age b

instance : DecidableRel older := fun a b => inferInstanceAs (Decidable (age a ≤ age b))

def newName (picks : List (String × String)) (id : String) : Option String :=
  (picks.find? fun pick => pick.1 = id).map Prod.snd

def rename (picks : List (String × String)) (record : ContainerRecord) : ContainerRecord :=
  match newName picks record.id with
  | some name => { record with name := some name }
  | none => record

namespace Database
variable (db : Database)

def records : List ContainerRecord := db.containers.entries.map Prod.snd

def names : List String := db.records.filterMap ContainerRecord.name

def strayClaims : OrdMap String String :=
  db.claims.retain fun _ owner => (db.containers.get owner).isNone

def occupied : List String := db.names ++ db.strayClaims.keys

def holders (name : String) : List ContainerRecord :=
  (db.records.filter fun record => record.name = some name).insertionSort older

def renamed (name : String) : List (String × ContainerRecord) :=
  (db.holders name).tail.map (name, ·)

def jobs (groups : GroupOrder) : List (String × ContainerRecord) :=
  (groups.order db.names.dedup).flatMap db.renamed

def writeMigrated (db : Database) (record : ContainerRecord) : Except OpenError Database :=
  match record.name with
  | none => .ok (db.setRow record)
  | some name =>
    if (db.claims.get name).isSome then
      .error (.store (.sqlite "UNIQUE constraint failed: container_name_claims.name"))
    else .ok { db.setRow record with claims := db.claims.insert name record.id }

def migrateContainerNames (groups : GroupOrder) : Except OpenError Database :=
  match repair db.occupied (db.jobs groups) with
  | none => .error .panic
  | some picks =>
    (db.records.map (rename picks)).foldlM writeMigrated { db with claims := db.strayClaims }

def openStore (groups : GroupOrder) : Except OpenError Database := do
  let migrated ← db.migrateContainerNames groups
  if migrated.names.Nodup then .ok migrated
  else .error (.store (.sqlite "UNIQUE constraint failed: containers.name"))

def list : List ContainerRecord := db.records.take 100

end Database

/-! ## The loop over the candidates -/

theorem candidate_injective (base : String) : Function.Injective (candidate base) := by
  intro a b h
  cases a with
  | zero =>
    cases b with
    | zero => rfl
    | succ b =>
      have hlength := congrArg String.length h
      simp only [candidate, String.length_append] at hlength
      have hdash : "-".length = 1 := rfl
      omega
  | succ a =>
    cases b with
    | zero =>
      have hlength := congrArg String.length h
      simp only [candidate, String.length_append] at hlength
      have hdash : "-".length = 1 := rfl
      omega
    | succ b =>
      have hlist := congrArg String.toList h
      simp only [candidate, String.toList_append, List.append_cancel_left_eq] at hlist
      have hturn := toString_injective (String.toList_inj.mp hlist)
      omega

theorem exists_candidate (occupied : List String) (base : String) :
    ∃ turn ∈ List.range (occupied.length + 1), candidate base turn ∉ occupied := by
  by_contra hnone
  have hsub : (List.range (occupied.length + 1)).map (candidate base) ⊆ occupied := by
    intro name hname
    obtain ⟨turn, hturn, rfl⟩ := List.mem_map.mp hname
    by_contra hfree
    exact hnone ⟨turn, hturn, hfree⟩
  have hnodup : ((List.range (occupied.length + 1)).map (candidate base)).Nodup :=
    List.nodup_range.map (candidate_injective base)
  have hle := (List.subperm_of_subset hnodup hsub).length_le
  rw [List.length_map, List.length_range] at hle
  omega

theorem replacementName_spec (occupied : List String) (base : String) :
    ∃ turn, replacementName occupied base = candidate base turn ∧
      candidate base turn ∉ occupied ∧ ∀ earlier < turn, candidate base earlier ∈ occupied := by
  rw [replacementName]
  cases hfind : (List.range (occupied.length + 1)).find? fun turn =>
      candidate base turn ∉ occupied with
  | none =>
    obtain ⟨turn, hturn, hfree⟩ := exists_candidate occupied base
    exact absurd (decide_eq_true hfree) (List.find?_eq_none.mp hfind turn hturn)
  | some turn =>
    obtain ⟨hfree, -, hearlier⟩ := List.find?_range_eq_some.mp hfind
    refine ⟨turn, rfl, of_decide_eq_true hfree, fun earlier hlt => ?_⟩
    simpa using hearlier earlier hlt

theorem replacementName_of_subset {occupied more : List String} {base : String}
    (hsub : occupied ⊆ more) (hfree : replacementName occupied base ∉ more) :
    replacementName more base = replacementName occupied base := by
  obtain ⟨turn, hname, -, hearlier⟩ := replacementName_spec occupied base
  obtain ⟨turn', hname', hfree', hearlier'⟩ := replacementName_spec more base
  rw [hname] at hfree ⊢
  rw [hname']
  have hle : ¬ turn < turn' := fun hlt => hfree (hearlier' turn hlt)
  have hge : ¬ turn' < turn := fun hlt => hfree' (hsub (hearlier turn' hlt))
  rw [show turn' = turn by omega]

theorem replacementName_notMem (occupied : List String) (base : String) :
    replacementName occupied base ∉ occupied := by
  obtain ⟨turn, hname, hfree, -⟩ := replacementName_spec occupied base
  rwa [hname]

/-! ## The new names -/

section Repair
variable {occupied more : List String} {jobs jobs' : List (String × ContainerRecord)}
  {picks : List (String × String)}

theorem repair_cons_eq_some {name : String} {record : ContainerRecord} :
    repair occupied ((name, record) :: jobs) = some picks ↔
      ∃ short rest, shortId record.id = some short ∧
        repair (replacementName occupied (name ++ "-" ++ short) :: occupied) jobs = some rest ∧
        picks = (record.id, replacementName occupied (name ++ "-" ++ short)) :: rest := by
  rw [repair]
  constructor
  · intro h
    obtain ⟨short, hshort, h⟩ := Option.bind_eq_some_iff.mp h
    obtain ⟨rest, hrest, h⟩ := Option.bind_eq_some_iff.mp h
    cases h
    exact ⟨short, rest, hshort, hrest, rfl⟩
  · intro h
    obtain ⟨short, rest, hshort, hrest, rfl⟩ := h
    exact Option.bind_eq_some_iff.mpr
      ⟨short, hshort, Option.bind_eq_some_iff.mpr ⟨rest, hrest, rfl⟩⟩

theorem repair_isSome_iff :
    (∃ picks, repair occupied jobs = some picks) ↔ ∀ job ∈ jobs, (shortId job.2.id).isSome := by
  induction jobs generalizing occupied with
  | nil => exact iff_of_true ⟨[], rfl⟩ (by simp)
  | cons job jobs ih =>
    obtain ⟨name, record⟩ := job
    rw [List.forall_mem_cons]
    constructor
    · intro h
      obtain ⟨picks, h⟩ := h
      obtain ⟨short, rest, hshort, hrest, -⟩ := repair_cons_eq_some.mp h
      exact ⟨by rw [hshort]; rfl, ih.mp ⟨rest, hrest⟩⟩
    · intro h
      obtain ⟨short, hshort⟩ := Option.isSome_iff_exists.mp h.1
      obtain ⟨rest, hrest⟩ : ∃ rest,
          repair (replacementName occupied (name ++ "-" ++ short) :: occupied) jobs = some rest :=
        ih.mpr h.2
      exact ⟨_, repair_cons_eq_some.mpr ⟨short, rest, hshort, hrest, rfl⟩⟩

theorem repair_spec (h : repair occupied jobs = some picks) :
    picks.map Prod.fst = jobs.map (fun job => job.2.id) ∧ (picks.map Prod.snd).Nodup ∧
      ∀ name ∈ picks.map Prod.snd, name ∉ occupied := by
  induction jobs generalizing occupied picks with
  | nil =>
    cases h
    exact ⟨rfl, List.nodup_nil, by simp⟩
  | cons job jobs ih =>
    obtain ⟨short, rest, -, hrest, rfl⟩ := repair_cons_eq_some.mp h
    obtain ⟨hids, hnodup, hfree⟩ := ih hrest
    refine ⟨by rw [List.map_cons, List.map_cons, hids], ?_, ?_⟩
    · rw [List.map_cons, List.nodup_cons]
      exact ⟨fun hmem => hfree _ hmem List.mem_cons_self, hnodup⟩
    · rw [List.map_cons, List.forall_mem_cons]
      exact ⟨replacementName_notMem _ _, fun name hname hmem =>
        hfree name hname (List.mem_cons_of_mem _ hmem)⟩

theorem repair_of_subset (h : repair occupied jobs = some picks) (hsub : occupied ⊆ more)
    (hfree : ∀ name ∈ picks.map Prod.snd, name ∉ more) : repair more jobs = some picks := by
  induction jobs generalizing occupied more picks with
  | nil =>
    cases h
    rfl
  | cons job jobs ih =>
    obtain ⟨short, rest, hshort, hrest, rfl⟩ := repair_cons_eq_some.mp h
    rw [List.map_cons, List.forall_mem_cons] at hfree
    have hname := replacementName_of_subset hsub hfree.1
    obtain ⟨-, -, hlater⟩ := repair_spec hrest
    refine repair_cons_eq_some.mpr ⟨short, rest, hshort, ?_, by rw [hname]⟩
    rw [hname]
    refine ih hrest (List.cons_subset_cons _ hsub) fun name hmem hmore => ?_
    cases List.mem_cons.mp hmore with
    | inl heq => exact hlater name hmem (heq ▸ List.mem_cons_self)
    | inr hmore => exact hfree.2 name hmem hmore

theorem repair_append : repair occupied (jobs ++ jobs') =
    (repair occupied jobs).bind fun picks =>
      (repair ((picks.map Prod.snd).reverse ++ occupied) jobs').map (picks ++ ·) := by
  induction jobs generalizing occupied with
  | nil => simp [repair]
  | cons job jobs ih =>
    obtain ⟨name, record⟩ := job
    rw [List.cons_append, repair, repair]
    cases shortId record.id with
    | none => rfl
    | some short =>
      simp only [Option.bind_eq_bind, Option.bind_some, ih, Option.bind_assoc]
      congr 1
      funext picks
      simp only [List.map_cons, List.reverse_cons, List.append_assoc,
        List.singleton_append, Option.map_eq_bind, Option.bind_assoc, Function.comp_def,
        Option.bind_some]
      rfl

theorem repair_flatMap {names : List String} {jobs : String → List (String × ContainerRecord)}
    {alone : String → List (String × String)} (hsub : occupied ⊆ more)
    (halone : ∀ name ∈ names, repair occupied (jobs name) = some (alone name))
    (hapart : names.Pairwise fun name name' =>
      ∀ replacement ∈ (alone name).map Prod.snd, replacement ∉ (alone name').map Prod.snd)
    (hfree : ∀ name ∈ names, ∀ replacement ∈ (alone name).map Prod.snd, replacement ∉ more) :
    repair more (names.flatMap jobs) = some (names.flatMap alone) := by
  induction names generalizing more with
  | nil => rfl
  | cons name names ih =>
    rw [List.forall_mem_cons] at halone hfree
    rw [List.pairwise_cons] at hapart
    have hfirst := repair_of_subset halone.1 hsub hfree.1
    have hrest : repair (((alone name).map Prod.snd).reverse ++ more) (names.flatMap jobs)
        = some (names.flatMap alone) := by
      refine ih (fun x hx => List.mem_append_right _ (hsub hx)) halone.2 hapart.2 ?_
      intro name' hname' replacement hmem hused
      cases List.mem_append.mp hused with
      | inl hused =>
        exact hapart.1 name' hname' replacement (List.mem_reverse.mp hused) hmem
      | inr hused => exact hfree.2 name' hname' replacement hmem hused
    rw [List.flatMap_cons, List.flatMap_cons, repair_append, hfirst, Option.bind_some, hrest]
    rfl

end Repair

/-! ## The groups -/

instance : Std.Total older where
  total _ _ := le_total _ _

instance : IsTrans ContainerRecord older where
  trans _ _ _ := le_trans

theorem older_antisymm {a b : ContainerRecord} (hab : older a b) (hba : older b a) : a.id = b.id :=
  congrArg (fun key => (ofLex key).2) (le_antisymm hab hba)

namespace Database
variable {db : Database} {record record' : ContainerRecord} {name : String}

theorem mem_records : record ∈ db.records ↔ db.containers.get record.id = some record := by
  rw [records, List.mem_map]
  constructor
  · intro h
    obtain ⟨entry, hentry, rfl⟩ := h
    have hget := (db.containers.get_eq_some_iff (k := entry.1) (v := entry.2)).mpr hentry
    rw [db.keyed _ _ hget]
    exact hget
  · intro h
    exact ⟨(record.id, record), (db.containers.get_eq_some_iff).mp h, rfl⟩

theorem map_id_records (db : Database) :
    db.records.map ContainerRecord.id = db.containers.keys := by
  rw [records, List.map_map, OrdMap.keys]
  refine List.map_congr_left fun entry hentry => ?_
  exact db.keyed _ _ ((db.containers.get_eq_some_iff).mpr hentry)

theorem nodup_ids (db : Database) : (db.records.map ContainerRecord.id).Nodup := by
  rw [map_id_records]
  exact db.containers.nodup_keys

theorem eq_of_id (h : record ∈ db.records) (h' : record' ∈ db.records)
    (hid : record.id = record'.id) : record = record' :=
  List.inj_on_of_nodup_map db.nodup_ids h h' hid

theorem mem_names : name ∈ db.names ↔ ∃ record ∈ db.records, record.name = some name := by
  rw [names, List.mem_filterMap]

theorem mem_order {groups : GroupOrder} :
    name ∈ groups.order db.names.dedup ↔ name ∈ db.names := by
  rw [(groups.perm _).mem_iff, List.mem_dedup]

theorem mem_holders : record ∈ db.holders name ↔ record ∈ db.records ∧ record.name = some name := by
  rw [holders, List.mem_insertionSort, List.mem_filter, decide_eq_true_eq]

theorem nodup_holders (db : Database) (name : String) :
    ((db.holders name).map ContainerRecord.id).Nodup := by
  have hperm := List.perm_insertionSort older (db.records.filter fun r => r.name = some name)
  rw [holders, (hperm.map ContainerRecord.id).nodup_iff]
  exact db.nodup_ids.sublist (List.filter_sublist.map _)

theorem holders_cases (h : record ∈ db.records) (hname : record.name = some name) :
    ∃ oldest rest, db.holders name = oldest :: rest ∧ (∀ other ∈ rest, older oldest other) ∧
      oldest.id ∉ rest.map ContainerRecord.id ∧ (record = oldest ∨ record ∈ rest) := by
  have hmem := mem_holders.mpr ⟨h, hname⟩
  have hsorted : (db.holders name).Pairwise older := List.pairwise_insertionSort older _
  have hnodup := db.nodup_holders name
  cases hholders : db.holders name with
  | nil =>
    rw [hholders] at hmem
    cases hmem
  | cons oldest rest =>
    rw [hholders] at hmem hsorted hnodup
    exact ⟨oldest, rest, rfl, (List.pairwise_cons.mp hsorted).1, (List.nodup_cons.mp hnodup).1,
      List.mem_cons.mp hmem⟩

theorem mem_renamed {job : String × ContainerRecord} (h : job ∈ db.renamed name) :
    job.2 ∈ db.records ∧ job.2.name = some name := by
  obtain ⟨other, hother, rfl⟩ := List.mem_map.mp h
  exact mem_holders.mp (List.mem_of_mem_tail hother)

theorem nodup_renamed {groups : List String} (h : groups.Nodup) :
    ((groups.flatMap db.renamed).map fun job => job.2.id).Nodup := by
  induction groups with
  | nil => exact List.nodup_nil
  | cons group groups ih =>
    rw [List.nodup_cons] at h
    rw [List.flatMap_cons, List.map_append]
    refine List.Nodup.append ?_ (ih h.2) ?_
    · rw [renamed, List.map_map]
      exact (db.nodup_holders group).sublist ((List.tail_sublist _).map _)
    · intro id hid hid'
      obtain ⟨job, hjob, rfl⟩ := List.mem_map.mp hid
      obtain ⟨job', hjob', heq⟩ := List.mem_map.mp hid'
      obtain ⟨group', hgroup', hjob'⟩ := List.mem_flatMap.mp hjob'
      have hmem := mem_renamed hjob
      have hmem' := mem_renamed hjob'
      rw [eq_of_id hmem'.1 hmem.1 heq, hmem.2] at hmem'
      exact h.1 (Option.some.inj hmem'.2 ▸ hgroup')

end Database

/-! ## Writing the rows and the claims -/

namespace Database
variable {db db' db₁ : Database} {record : ContainerRecord} {records : List ContainerRecord}

theorem ext_get (hrows : ∀ id, db.containers.get id = db'.containers.get id)
    (hoperations : db.operations = db'.operations)
    (hclaims : ∀ name, db.claims.get name = db'.claims.get name) : db = db' := by
  cases db
  cases db'
  cases OrdMap.ext_get hrows
  cases OrdMap.ext_get hclaims
  cases hoperations
  rfl

theorem writeMigrated_ok_iff :
    (∃ db₁, db.writeMigrated record = .ok db₁) ↔
      ∀ name ∈ record.name, db.claims.get name = none := by
  rw [writeMigrated]
  cases hname : record.name with
  | none => exact iff_of_true ⟨_, rfl⟩ (by simp)
  | some name =>
    cases hclaim : db.claims.get name with
    | none => simp [hclaim]
    | some owner => simp [hclaim]

theorem writeMigrated_spec (h : db.writeMigrated record = .ok db₁) :
    db₁.operations = db.operations ∧
      (∀ id, db₁.containers.get id = if id = record.id then some record
        else db.containers.get id) ∧
      ∀ name, db₁.claims.get name = if record.name = some name then some record.id
        else db.claims.get name := by
  rw [writeMigrated] at h
  cases hname : record.name with
  | none =>
    simp only [hname] at h
    cases h
    exact ⟨rfl, fun id => OrdMap.get_insert _ _ _ _, fun name => by simp [setRow]⟩
  | some name =>
    simp only [hname] at h
    split at h
    · cases h
    · cases h
      refine ⟨rfl, fun id => OrdMap.get_insert _ _ _ _, fun name' => ?_⟩
      simp only [OrdMap.get_insert, Option.some.injEq, eq_comm]

structure Written (db : Database) (records : List ContainerRecord) (db' : Database) : Prop where
  operations : db'.operations = db.operations
  rows : ∀ record ∈ records, db'.containers.get record.id = some record
  others : ∀ id, id ∉ records.map ContainerRecord.id →
    db'.containers.get id = db.containers.get id
  claims : ∀ name id, db'.claims.get name = some id ↔
    (∃ record ∈ records, record.name = some name ∧ record.id = id) ∨ db.claims.get name = some id

theorem foldlM_writeMigrated (hids : (records.map ContainerRecord.id).Nodup)
    (h : records.foldlM writeMigrated db = .ok db') : Written db records db' := by
  induction records generalizing db with
  | nil =>
    cases h
    exact ⟨rfl, by simp, fun _ _ => rfl, by simp⟩
  | cons record records ih =>
    rw [List.map_cons, List.nodup_cons] at hids
    obtain ⟨db₁, hwrite, h⟩ := Except.bind_eq_ok.mp h
    obtain ⟨hoperations, hrow, hclaim⟩ := writeMigrated_spec hwrite
    have hfree := writeMigrated_ok_iff.mp ⟨db₁, hwrite⟩
    have hrest := ih hids.2 h
    refine ⟨hrest.operations.trans hoperations, ?_, ?_, ?_⟩
    · rw [List.forall_mem_cons]
      refine ⟨?_, hrest.rows⟩
      rw [hrest.others _ hids.1, hrow, if_pos rfl]
    · intro id hid
      rw [List.map_cons, List.mem_cons, not_or] at hid
      rw [hrest.others id hid.2, hrow, if_neg hid.1]
    · intro name id
      rw [hrest.claims, hclaim]
      by_cases hname : record.name = some name
      · have hnone := hfree name hname
        simp [hname, hnone, or_comm]
      · simp [hname]

def Free (db : Database) (records : List ContainerRecord) : Prop :=
  (records.filterMap ContainerRecord.name).Nodup ∧
    ∀ name ∈ records.filterMap ContainerRecord.name, db.claims.get name = none

theorem free_cons (hclaim : ∀ name, db₁.claims.get name =
      if record.name = some name then some record.id else db.claims.get name) :
    Free db (record :: records) ↔
      (∀ name ∈ record.name, db.claims.get name = none) ∧ Free db₁ records := by
  cases hname : record.name with
  | none =>
    have hsame (name : String) : db₁.claims.get name = db.claims.get name := by
      rw [hclaim, hname, if_neg (by simp)]
    simp [Free, List.filterMap_cons_none hname, hsame]
  | some name =>
    have hfree (name' : String) :
        db₁.claims.get name' = none ↔ name' ≠ name ∧ db.claims.get name' = none := by
      rw [hclaim, hname]
      by_cases heq : name = name'
      · simp [heq]
      · simp [heq, Ne.symm heq]
    simp only [Free, List.filterMap_cons_some hname, List.nodup_cons, List.forall_mem_cons, hfree,
      Option.mem_some_iff, forall_eq']
    constructor
    · intro h
      obtain ⟨⟨hnew, hnodup⟩, hclaim, hrest⟩ := h
      exact ⟨hclaim, hnodup, fun name' hmem => ⟨fun heq => hnew (heq ▸ hmem), hrest name' hmem⟩⟩
    · intro h
      obtain ⟨hclaim, hnodup, hrest⟩ := h
      exact ⟨⟨fun hmem => (hrest name hmem).1 rfl, hnodup⟩, hclaim,
        fun name' hmem => (hrest name' hmem).2⟩

theorem foldlM_writeMigrated_ok_iff :
    (∃ db', records.foldlM writeMigrated db = .ok db') ↔ Free db records := by
  induction records generalizing db with
  | nil => exact iff_of_true ⟨db, rfl⟩ ⟨List.nodup_nil, by simp⟩
  | cons record records ih =>
    constructor
    · intro h
      obtain ⟨db', h⟩ := h
      obtain ⟨db₁, hwrite, h⟩ := Except.bind_eq_ok.mp h
      exact (free_cons (writeMigrated_spec hwrite).2.2).mpr
        ⟨writeMigrated_ok_iff.mp ⟨db₁, hwrite⟩, ih.mp ⟨db', h⟩⟩
    · intro h
      have hname : ∀ name ∈ record.name, db.claims.get name = none := fun name hname =>
        h.2 name (List.mem_filterMap.mpr ⟨record, List.mem_cons_self, hname⟩)
      obtain ⟨db₁, hwrite⟩ := writeMigrated_ok_iff.mpr hname
      have hrest := ((free_cons (writeMigrated_spec hwrite).2.2).mp h).2
      obtain ⟨db', h⟩ := ih.mpr hrest
      exact ⟨db', Except.bind_eq_ok.mpr ⟨db₁, hwrite, h⟩⟩

end Database

theorem nodup_filterMap_iff {α β : Type} {f : α → Option β} {as : List α} (hnodup : as.Nodup) :
    (as.filterMap f).Nodup ↔ ∀ a ∈ as, ∀ b ∈ as, ∀ c, f a = some c → f b = some c → a = b := by
  rw [List.Nodup, List.pairwise_filterMap]
  constructor
  · intro h a ha b hb c hfa hfb
    by_contra hne
    have : Std.Symm fun a b => ∀ c, f a = some c → ∀ c', f b = some c' → c ≠ c' :=
      ⟨fun a b hab c hc c' hc' => (hab c' hc' c hc).symm⟩
    exact h.forall ha hb hne c hfa c hfb rfl
  · intro h
    refine hnodup.pairwise_of_forall_ne fun a ha b hb hne c hfa c' hfb heq => ?_
    subst heq
    exact hne (h a ha b hb c hfa hfb)

/-! ## Who keeps a name -/

namespace Database
variable {db : Database} {record record' : ContainerRecord} {name : String}
  {picks : List (String × String)} {groups : GroupOrder}

def Oldest (db : Database) (record : ContainerRecord) : Prop :=
  ∀ name, record.name = some name → ∀ other ∈ db.records, other.name = some name →
    older record other

theorem Oldest.unique (h : Oldest db record) (h' : Oldest db record') (hmem : record ∈ db.records)
    (hmem' : record' ∈ db.records) (hname : record.name = some name)
    (hname' : record'.name = some name) : record = record' :=
  eq_of_id hmem hmem' (older_antisymm (h name hname record' hmem' hname')
    (h' name hname' record hmem hname))

theorem oldest_of_holders {first : ContainerRecord} {rest : List ContainerRecord}
    (h : db.holders name = first :: rest) (hall : ∀ other ∈ rest, older first other) :
    Oldest db first := by
  have hfirst := (mem_holders.mp (h ▸ List.mem_cons_self : first ∈ db.holders name)).2
  intro name' hname' other hother hothername
  have heq : name' = name := Option.some.inj (hname'.symm.trans hfirst)
  have hmem : other ∈ db.holders name := mem_holders.mpr ⟨hother, heq ▸ hothername⟩
  rw [h] at hmem
  cases List.mem_cons.mp hmem with
  | inl hsame => exact hsame ▸ le_refl _
  | inr hrest => exact hall other hrest

theorem exists_oldest (h : name ∈ db.names) :
    ∃ record ∈ db.records, record.name = some name ∧ Oldest db record := by
  obtain ⟨holder, hholder, hname⟩ := mem_names.mp h
  obtain ⟨first, rest, hholders, hall, -, -⟩ := holders_cases hholder hname
  have hfirst := mem_holders.mp (hholders ▸ List.mem_cons_self : first ∈ db.holders name)
  exact ⟨first, hfirst.1, hfirst.2, oldest_of_holders hholders hall⟩

theorem mem_jobs_iff (groups : GroupOrder) (hmem : record ∈ db.records) :
    record.id ∈ ((db.jobs groups).map fun job => job.2.id) ↔ ¬ Oldest db record := by
  constructor
  · intro h holdest
    obtain ⟨job, hjob, hid⟩ := List.mem_map.mp h
    obtain ⟨name, -, hjob⟩ := List.mem_flatMap.mp hjob
    have hrecord : job.2 = record := eq_of_id (mem_renamed hjob).1 hmem hid
    obtain ⟨other, hother, rfl⟩ := List.mem_map.mp hjob
    subst hrecord
    have hholder := mem_holders.mp (List.mem_of_mem_tail hother)
    obtain ⟨oldest, rest, hholders, hall, hfresh, -⟩ := holders_cases hholder.1 hholder.2
    rw [hholders] at hother
    have hfirst := mem_holders.mp (hholders ▸ List.mem_cons_self : oldest ∈ db.holders name)
    have hsame := older_antisymm (hall _ hother) (holdest name hholder.2 oldest hfirst.1 hfirst.2)
    exact hfresh (hsame ▸ List.mem_map_of_mem hother)
  · intro h
    cases hname : record.name with
    | none => exact absurd (fun name hsome => by rw [hname] at hsome; cases hsome) h
    | some name =>
      obtain ⟨first, rest, hholders, hall, -, hcase⟩ := holders_cases hmem hname
      have hnames : name ∈ db.names := mem_names.mpr ⟨record, hmem, hname⟩
      have hrest : record ∈ rest :=
        hcase.resolve_left fun heq => h (heq ▸ oldest_of_holders hholders hall)
      have hjob : (name, record) ∈ db.renamed name := by
        rw [renamed, hholders]
        exact List.mem_map.mpr ⟨record, hrest, rfl⟩
      refine List.mem_map.mpr ⟨(name, record), List.mem_flatMap.mpr ⟨name, ?_, hjob⟩, rfl⟩
      exact mem_order.mpr hnames

section Picks
variable (h : repair db.occupied (db.jobs groups) = some picks)
include h

theorem nodup_picks : (picks.map Prod.fst).Nodup := by
  rw [(repair_spec h).1]
  exact nodup_renamed ((groups.perm _).nodup_iff.mpr (List.nodup_dedup _))

theorem rename_of_oldest (hmem : record ∈ db.records) (holdest : Oldest db record) :
    rename picks record = record := by
  have hnone : newName picks record.id = none := by
    refine Option.map_eq_none_iff.mpr (List.find?_eq_none.mpr fun pick hpick hid => ?_)
    refine (mem_jobs_iff groups hmem).mp ?_ holdest
    rw [← (repair_spec h).1, ← of_decide_eq_true hid]
    exact List.mem_map_of_mem hpick
  rw [rename, hnone]

theorem rename_of_not_oldest (hmem : record ∈ db.records) (hyounger : ¬ Oldest db record) :
    ∃ name, (record.id, name) ∈ picks ∧
      rename picks record = { record with name := some name } := by
  have hid := (mem_jobs_iff groups hmem).mpr hyounger
  rw [← (repair_spec h).1] at hid
  obtain ⟨pick, hpick, hpickid⟩ := List.mem_map.mp hid
  have hnew : newName picks record.id = some pick.2 :=
    (find_key_eq_some_iff (nodup_picks h)).mpr (hpickid ▸ hpick)
  exact ⟨pick.2, hpickid ▸ hpick, by rw [rename, hnew]⟩

theorem eq_of_renamed_name (ha : record ∈ db.records) (hb : record' ∈ db.records)
    (hname : (rename picks record).name = some name)
    (hname' : (rename picks record').name = some name) : record = record' := by
  obtain ⟨-, hvalues, hfree⟩ := repair_spec h
  have hmixed {a b : ContainerRecord} (ha : a ∈ db.records) (hb : b ∈ db.records)
      (holdest : Oldest db a) (hyounger : ¬ Oldest db b)
      (hname : (rename picks a).name = some name) : (rename picks b).name ≠ some name := by
    rw [rename_of_oldest h ha holdest] at hname
    obtain ⟨pick, hpick, hrename⟩ := rename_of_not_oldest h hb hyounger
    rw [hrename]
    intro heq
    cases heq
    exact hfree _ (List.mem_map_of_mem hpick)
      (List.mem_append_left _ (mem_names.mpr ⟨a, ha, hname⟩))
  by_cases holdest : Oldest db record
  · by_cases holdest' : Oldest db record'
    · rw [rename_of_oldest h ha holdest] at hname
      rw [rename_of_oldest h hb holdest'] at hname'
      exact holdest.unique holdest' ha hb hname hname'
    · exact absurd hname' (hmixed ha hb holdest holdest' hname)
  · by_cases holdest' : Oldest db record'
    · exact absurd hname (hmixed hb ha holdest' holdest hname')
    · obtain ⟨pick, hpick, hrename⟩ := rename_of_not_oldest h ha holdest
      obtain ⟨pick', hpick', hrename'⟩ := rename_of_not_oldest h hb holdest'
      rw [hrename] at hname
      rw [hrename'] at hname'
      cases hname
      cases hname'
      have hsame := List.inj_on_of_nodup_map hvalues hpick hpick' rfl
      exact eq_of_id ha hb (congrArg Prod.fst hsame)

theorem nodup_renamed_names :
    ((db.records.map (rename picks)).filterMap ContainerRecord.name).Nodup := by
  rw [List.filterMap_map, nodup_filterMap_iff (List.Nodup.of_map _ db.nodup_ids)]
  exact fun a ha b hb name => eq_of_renamed_name h ha hb

end Picks

end Database

/-! ## Opening -/

namespace Database
variable {db db' : Database} {record : ContainerRecord} {picks : List (String × String)}
  {groups : GroupOrder}

theorem rename_id (picks : List (String × String)) (record : ContainerRecord) :
    (rename picks record).id = record.id := by
  rw [rename]
  split
  · rfl
  · rfl

theorem map_id_rename (picks : List (String × String)) (records : List ContainerRecord) :
    (records.map (rename picks)).map ContainerRecord.id = records.map ContainerRecord.id := by
  rw [List.map_map]
  exact List.map_congr_left fun record _ => rename_id picks record

theorem openStore_spec (h : db.openStore groups = .ok db') :
    ∃ picks, repair db.occupied (db.jobs groups) = some picks ∧
      Written { db with claims := db.strayClaims } (db.records.map (rename picks)) db' := by
  obtain ⟨migrated, hmigrated, h⟩ := Except.bind_eq_ok.mp h
  split at h
  · cases h
    rw [migrateContainerNames] at hmigrated
    cases hrepair : repair db.occupied (db.jobs groups) with
    | none =>
      rw [hrepair] at hmigrated
      cases hmigrated
    | some picks =>
      rw [hrepair] at hmigrated
      refine ⟨picks, rfl, foldlM_writeMigrated ?_ hmigrated⟩
      rw [map_id_rename]
      exact db.nodup_ids
  · cases h

theorem Written.get_eq {records : List ContainerRecord} {id : String}
    (h : Written db (records.map (rename picks)) db')
    (hrecords : ∀ record, record ∈ records ↔ db.containers.get record.id = some record) :
    db'.containers.get id = (db.containers.get id).map (rename picks) := by
  cases hget : db.containers.get id with
  | none =>
    rw [h.others id, hget]
    · rfl
    · rw [map_id_rename]
      intro hmem
      obtain ⟨record, hrecord, rfl⟩ := List.mem_map.mp hmem
      rw [(hrecords record).mp hrecord] at hget
      cases hget
  | some record =>
    have hid := db.keyed id record hget
    have hmem : record ∈ records := (hrecords record).mpr (hid.symm ▸ hget)
    have hrow := h.rows _ (List.mem_map_of_mem hmem)
    rw [rename_id, hid] at hrow
    exact hrow

theorem mem_records_of_get {id : String} (h : db.containers.get id = some record) :
    record ∈ db.records := by
  rw [mem_records, db.keyed id record h]
  exact h

theorem nodup_names_of_written (hrepair : repair db.occupied (db.jobs groups) = some picks)
    (h : Written { db with claims := db.strayClaims } (db.records.map (rename picks)) db') :
    db'.names.Nodup := by
  have hget (id : String) : db'.containers.get id = (db.containers.get id).map (rename picks) :=
    h.get_eq fun record => mem_records
  have hold {record' : ContainerRecord} (hmem : record' ∈ db'.records) :
      ∃ record ∈ db.records, rename picks record = record' := by
    rw [mem_records, hget] at hmem
    obtain ⟨record, hrecord, heq⟩ := Option.map_eq_some_iff.mp hmem
    exact ⟨record, mem_records_of_get hrecord, heq⟩
  rw [names, nodup_filterMap_iff (List.Nodup.of_map _ db'.nodup_ids)]
  intro a ha b hb name hname hname'
  obtain ⟨record, hrecord, rfl⟩ := hold ha
  obtain ⟨record', hrecord', rfl⟩ := hold hb
  rw [eq_of_renamed_name hrepair hrecord hrecord' hname hname']

theorem repair_jobs_iff :
    (∃ picks, repair db.occupied (db.jobs groups) = some picks) ↔
      ∀ job ∈ db.jobs groups, (shortId job.2.id).isSome := repair_isSome_iff

theorem openStore_ok_iff :
    (∃ db', db.openStore groups = .ok db') ↔
      (∀ job ∈ db.jobs groups, (shortId job.2.id).isSome) ∧
        ∀ name ∈ db.names, db.strayClaims.get name = none := by
  rw [← repair_jobs_iff]
  constructor
  · intro h
    obtain ⟨db', h⟩ := h
    obtain ⟨migrated, hmigrated, -⟩ := Except.bind_eq_ok.mp h
    rw [migrateContainerNames] at hmigrated
    cases hrepair : repair db.occupied (db.jobs groups) with
    | none =>
      rw [hrepair] at hmigrated
      cases hmigrated
    | some picks =>
      rw [hrepair] at hmigrated
      refine ⟨⟨picks, rfl⟩, fun name hname => ?_⟩
      obtain ⟨record, hrecord, hrecordname, holdest⟩ := exists_oldest hname
      refine (foldlM_writeMigrated_ok_iff.mp ⟨migrated, hmigrated⟩).2 name ?_
      refine List.mem_filterMap.mpr ⟨record, List.mem_map.mpr ⟨record, hrecord, ?_⟩, hrecordname⟩
      exact rename_of_oldest hrepair hrecord holdest
  · intro h
    obtain ⟨⟨picks, hrepair⟩, hstray⟩ := h
    have hfree : ∀ name ∈ (db.records.map (rename picks)).filterMap ContainerRecord.name,
        db.strayClaims.get name = none := by
      intro name hname
      obtain ⟨renamed, hrenamed, hname⟩ := List.mem_filterMap.mp hname
      obtain ⟨record, hrecord, rfl⟩ := List.mem_map.mp hrenamed
      by_cases holdest : Oldest db record
      · rw [rename_of_oldest hrepair hrecord holdest] at hname
        exact hstray name (mem_names.mpr ⟨record, hrecord, hname⟩)
      · obtain ⟨pick, hpick, hrename⟩ := rename_of_not_oldest hrepair hrecord holdest
        rw [hrename] at hname
        cases hname
        by_contra hclaim
        exact (repair_spec hrepair).2.2 _ (List.mem_map_of_mem hpick)
          (List.mem_append_right _ ((OrdMap.mem_keys_iff _).mpr hclaim))
    obtain ⟨db', hdb'⟩ : ∃ db', (db.records.map (rename picks)).foldlM writeMigrated
        { db with claims := db.strayClaims } = .ok db' :=
      foldlM_writeMigrated_ok_iff.mpr ⟨nodup_renamed_names hrepair, hfree⟩
    have hwritten := foldlM_writeMigrated (by rw [map_id_rename]; exact db.nodup_ids) hdb'
    refine ⟨db', Except.bind_eq_ok.mpr ⟨db', ?_, if_pos (nodup_names_of_written hrepair hwritten)⟩⟩
    rw [migrateContainerNames, hrepair]
    exact hdb'

end Database

end Ferrocrate.Container

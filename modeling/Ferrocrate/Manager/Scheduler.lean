import Ferrocrate.Lib.Bytes
import Ferrocrate.Lib.OrdMap
import Mathlib.Algebra.BigOperators.Group.List.Basic

/-! Placing tasks on nodes: `scheduler.rs` of the manager. Subtractions and additions are checked;
`none` is an overflow. -/
namespace Ferrocrate.Manager.Scheduler
open Lib

structure Node where
  id : String
  labels : OrdMap String String
  cpuMillis : UInt64
  memoryBytes : UInt64
  taskLimit : UInt64
  runningTasks : UInt64
  healthy : Bool

structure Task where
  id : String
  cpuMillis : UInt64
  memoryBytes : UInt64
  requiredLabels : OrdMap String String

structure Placement where
  taskId : String
  nodeId : String
deriving DecidableEq

inductive ScheduleError where
  | unschedulable (taskId : String) (reason : String)

def carries (node : Node) (task : Task) : Bool :=
  task.requiredLabels.entries.all fun entry => node.labels.get entry.1 = some entry.2

def eligible (task : Task) (node : Node) : Bool :=
  node.healthy && (node.runningTasks < node.taskLimit) && (task.cpuMillis ≤ node.cpuMillis)
    && (task.memoryBytes ≤ node.memoryBytes) && carries node task

def u64Max : UInt64 := 18446744073709551615

def loadKey (node : Node) : UInt64 × UInt64 × UInt64 :=
  (node.runningTasks, u64Max - node.cpuMillis, u64Max - node.memoryBytes)

def precedes (left right : Node) : Bool :=
  let l := loadKey left
  let r := loadKey right
  l.1 < r.1 ∨ l.1 = r.1 ∧ (l.2.1 < r.2.1 ∨ l.2.1 = r.2.1 ∧ (l.2.2 < r.2.2 ∨ l.2.2 = r.2.2 ∧
    left.id < right.id))

def minBy : List (Node × Nat) → Option (Node × Nat)
  | [] => none
  | first :: rest => some (rest.foldl (fun best next => if precedes next.1 best.1 then next else best)
      first)

def candidate (available : List Node) (task : Task) : Option (Node × Nat) :=
  minBy (available.zipIdx.filter fun entry => eligible task entry.1)

def reserve (node : Node) (task : Task) : Option Node := do
  let cpuMillis ← checkedSub node.cpuMillis task.cpuMillis
  let memoryBytes ← checkedSub node.memoryBytes task.memoryBytes
  let runningTasks ← checkedAdd node.runningTasks 1
  return { node with cpuMillis, memoryBytes, runningTasks }

def placeAll : List Node → List Placement → List Task →
    Option (Except ScheduleError (List Placement))
  | _, placements, [] => some (.ok placements)
  | available, placements, task :: tasks =>
    match candidate available task with
    | none => some (.error (.unschedulable task.id
        "no healthy node satisfies labels and remaining capacity"))
    | some (node, i) =>
      match reserve node task with
      | none => none
      | some rest =>
        placeAll (available.set i rest) (placements ++ [⟨task.id, node.id⟩]) tasks

def place (nodes : List Node) (tasks : List Task) :
    Option (Except ScheduleError (List Placement)) :=
  placeAll (nodes.insertionSort (·.id ≤ ·.id)) [] (tasks.insertionSort (·.id ≤ ·.id))

/-! ## The candidate -/

theorem minBy_mem {entries : List (Node × Nat)} {entry : Node × Nat}
    (h : minBy entries = some entry) : entry ∈ entries := by
  cases entries with
  | nil => cases h
  | cons first rest =>
    rw [← Option.some.inj h]
    clear h
    induction rest generalizing first with
    | nil => exact List.mem_cons_self
    | cons next rest ih =>
      rw [List.foldl_cons]
      split
      · exact List.mem_cons_of_mem _ (ih next)
      · cases List.mem_cons.mp (ih first) with
        | inl heq =>
          rw [heq]
          exact List.mem_cons_self
        | inr hrest => exact List.mem_cons_of_mem _ (List.mem_cons_of_mem _ hrest)

variable {task : Task} {available : List Node} {node : Node}

theorem candidate_spec {i : Nat}
    (h : candidate available task = some (node, i)) :
    available[i]? = some node ∧ eligible task node = true := by
  have hmem := List.mem_filter.mp (minBy_mem h)
  exact ⟨List.mem_zipIdx_iff_getElem?.mp hmem.1, hmem.2⟩

theorem eligible_iff :
    eligible task node = true ↔ node.healthy = true ∧ node.runningTasks < node.taskLimit ∧
      task.cpuMillis ≤ node.cpuMillis ∧ task.memoryBytes ≤ node.memoryBytes ∧
      carries node task = true := by
  simp [eligible, and_assoc]

theorem reserve_spec (h : eligible task node = true) :
    ∃ rest, reserve node task = some rest ∧ rest.id = node.id ∧ rest.labels = node.labels ∧
      rest.healthy = node.healthy ∧ rest.taskLimit = node.taskLimit ∧
      rest.cpuMillis.toNat + task.cpuMillis.toNat = node.cpuMillis.toNat ∧
      rest.memoryBytes.toNat + task.memoryBytes.toNat = node.memoryBytes.toNat ∧
      rest.runningTasks.toNat = node.runningTasks.toNat + 1 ∧
      rest.runningTasks ≤ rest.taskLimit := by
  obtain ⟨-, hlimit, hcpu, hmemory, -⟩ := eligible_iff.mp h
  have hlimit' := UInt64.lt_iff_toNat_lt.mp hlimit
  have hbound := node.taskLimit.toNat_lt
  obtain ⟨running, hrunning⟩ : ∃ running, checkedAdd node.runningTasks 1 = some running :=
    ⟨_, if_pos (by omega)⟩
  have hvalue := toNat_checkedAdd hrunning
  refine ⟨⟨node.id, node.labels, node.cpuMillis - task.cpuMillis,
    node.memoryBytes - task.memoryBytes, node.taskLimit, running, node.healthy⟩, ?_, rfl, rfl, rfl,
    rfl, ?_, ?_, hvalue, ?_⟩
  · rw [reserve, checkedSub, if_pos hcpu, checkedSub, if_pos hmemory, hrunning]
    rfl
  · have hsub := UInt64.toNat_sub_of_le _ _ hcpu
    have hle := UInt64.le_iff_toNat_le.mp hcpu
    dsimp only
    omega
  · have hsub := UInt64.toNat_sub_of_le _ _ hmemory
    have hle := UInt64.le_iff_toNat_le.mp hmemory
    dsimp only
    omega
  · rw [UInt64.le_iff_toNat_le]
    dsimp only
    omega

/-! ## What is placed so far -/

abbrev Assigned := Task × String

def Assigned.placement (a : Assigned) : Placement := ⟨a.1.id, a.2⟩

def tasksOn (done : List Assigned) (nodeId : String) : List Task :=
  (done.filter (·.2 = nodeId)).map (·.1)

variable {done : List Assigned}

theorem tasksOn_append {nodeId id : String} :
    tasksOn (done ++ [(task, nodeId)]) id
      = tasksOn done id ++ if nodeId = id then [task] else [] := by
  rw [tasksOn, tasksOn, List.filter_append, List.map_append]
  by_cases h : nodeId = id
  · simp [h]
  · simp [h]

def cpuOf (tasks : List Task) : Nat := (tasks.map (·.cpuMillis.toNat)).sum

def memoryOf (tasks : List Task) : Nat := (tasks.map (·.memoryBytes.toNat)).sum

structure Reserved (done : List Assigned) (node rest : Node) : Prop where
  id : rest.id = node.id
  labels : rest.labels = node.labels
  healthy : rest.healthy = node.healthy
  taskLimit : rest.taskLimit = node.taskLimit
  cpu : rest.cpuMillis.toNat + cpuOf (tasksOn done node.id) = node.cpuMillis.toNat
  memory : rest.memoryBytes.toNat + memoryOf (tasksOn done node.id) = node.memoryBytes.toNat
  running : rest.runningTasks.toNat = node.runningTasks.toNat + (tasksOn done node.id).length
  limit : tasksOn done node.id ≠ [] → rest.runningTasks ≤ rest.taskLimit

theorem Reserved.initial (node : Node) : Reserved [] node node where
  id := rfl
  labels := rfl
  healthy := rfl
  taskLimit := rfl
  cpu := rfl
  memory := rfl
  running := rfl
  limit h := absurd rfl h

theorem Reserved.elsewhere {node rest : Node} {nodeId : String}
    (h : Reserved done node rest) (hne : nodeId ≠ node.id) :
    Reserved (done ++ [(task, nodeId)]) node rest := by
  have hsame : tasksOn (done ++ [(task, nodeId)]) node.id = tasksOn done node.id := by
    rw [tasksOn_append, if_neg hne, List.append_nil]
  exact {
    id := h.id
    labels := h.labels
    healthy := h.healthy
    taskLimit := h.taskLimit
    cpu := hsame ▸ h.cpu
    memory := hsame ▸ h.memory
    running := hsame ▸ h.running
    limit := hsame ▸ h.limit }

theorem Reserved.place {node rest rest' : Node}
    (h : Reserved done node rest) (heligible : eligible task rest = true)
    (hreserve : reserve rest task = some rest') :
    Reserved (done ++ [(task, rest.id)]) node rest' := by
  obtain ⟨rest'', hrest, hid, hlabels, hhealthy, hlimit, hcpu, hmemory, hrunning, hle⟩ :=
    reserve_spec heligible
  obtain rfl := Option.some.inj (hreserve.symm.trans hrest)
  have hmore : tasksOn (done ++ [(task, rest.id)]) node.id = tasksOn done node.id ++ [task] := by
    rw [tasksOn_append, if_pos h.id]
  have hnodeCpu := h.cpu
  have hnodeMemory := h.memory
  have hnodeRunning := h.running
  refine ⟨hid.trans h.id, hlabels.trans h.labels, hhealthy.trans h.healthy,
    hlimit.trans h.taskLimit, ?_, ?_, ?_, fun _ => hle⟩
  · rw [hmore]
    simp only [cpuOf, List.map_append, List.sum_append, List.map_cons, List.map_nil,
      List.sum_singleton] at hnodeCpu ⊢
    omega
  · rw [hmore]
    simp only [memoryOf, List.map_append, List.sum_append, List.map_cons, List.map_nil,
      List.sum_singleton] at hnodeMemory ⊢
    omega
  · rw [hmore, List.length_append, List.length_singleton]
    omega

structure Represents (nodes : List Node) (done : List Assigned) (available : List Node) : Prop where
  length : available.length = nodes.length
  reserved : ∀ (i : Nat) (node rest : Node), nodes[i]? = some node → available[i]? = some rest →
    Reserved done node rest

def Suits (nodes : List Node) (a : Assigned) : Prop :=
  ∃ node ∈ nodes, node.id = a.2 ∧ node.healthy = true ∧ carries node a.1 = true

variable {nodes : List Node}

theorem Represents.place
    {rest rest' : Node} {i : Nat} (hnodes : (nodes.map Node.id).Nodup)
    (h : Represents nodes done available) (hcandidate : candidate available task = some (rest, i))
    (hreserve : reserve rest task = some rest') :
    Represents nodes (done ++ [(task, rest.id)]) (available.set i rest') ∧
      Suits nodes (task, rest.id) := by
  obtain ⟨hrest, heligible⟩ := candidate_spec hcandidate
  have hi : i < available.length := (List.getElem?_eq_some_iff.mp hrest).1
  obtain ⟨node, hnode⟩ : ∃ node, nodes[i]? = some node :=
    ⟨_, List.getElem?_eq_getElem (h.length ▸ hi)⟩
  have hreserved := h.reserved i node rest hnode hrest
  constructor
  · refine ⟨by rw [List.length_set, h.length], fun j other otherRest hother hotherRest => ?_⟩
    by_cases hij : i = j
    · subst hij
      rw [List.getElem?_set_self hi] at hotherRest
      obtain rfl := Option.some.inj hotherRest
      obtain rfl := Option.some.inj (hnode.symm.trans hother)
      exact hreserved.place heligible hreserve
    · rw [List.getElem?_set_ne hij] at hotherRest
      refine (h.reserved j other otherRest hother hotherRest).elsewhere fun heq => hij ?_
      rw [hreserved.id] at heq
      have hids : (nodes.map Node.id)[i]? = (nodes.map Node.id)[j]? := by
        rw [List.getElem?_map, List.getElem?_map, hnode, hother, Option.map_some, Option.map_some,
          heq]
      refine (List.getElem?_inj ?_ hnodes).mp hids
      rw [List.length_map, ← h.length]
      exact hi
  · obtain ⟨hhealthy, -, -, -, hcarries⟩ := eligible_iff.mp heligible
    refine ⟨node, List.mem_of_getElem? hnode, hreserved.id.symm, hreserved.healthy ▸ hhealthy, ?_⟩
    rw [carries, ← hreserved.labels]
    exact hcarries

variable {tasks : List Task}

theorem placeAll_spec (hnodes : (nodes.map Node.id).Nodup) (h : Represents nodes done available)
    (hsuits : ∀ a ∈ done, Suits nodes a) :
    ∃ result, placeAll available (done.map Assigned.placement) tasks = some result ∧
      ∀ placements, result = .ok placements → ∃ done' available', Represents nodes done' available' ∧
        (∀ a ∈ done', Suits nodes a) ∧ done'.map Prod.fst = done.map Prod.fst ++ tasks ∧
        placements = done'.map Assigned.placement := by
  induction tasks generalizing done available with
  | nil =>
    refine ⟨_, rfl, fun placements hok => ⟨done, available, h, hsuits, ?_, ?_⟩⟩
    · rw [List.append_nil]
    · exact (Except.ok.inj hok).symm
  | cons task tasks ih =>
    rw [placeAll]
    cases hcandidate : candidate available task with
    | none => exact ⟨_, rfl, fun placements hok => nomatch hok⟩
    | some entry =>
      obtain ⟨rest, i⟩ := entry
      obtain ⟨rest', hreserve, -⟩ := reserve_spec (candidate_spec hcandidate).2
      obtain ⟨hnext, hsuit⟩ := h.place hnodes hcandidate hreserve
      dsimp only
      rw [hreserve]
      have hsuits' : ∀ a ∈ done ++ [(task, rest.id)], Suits nodes a := by
        intro a ha
        cases List.mem_append.mp ha with
        | inl hold => exact hsuits a hold
        | inr hnew => exact List.mem_singleton.mp hnew ▸ hsuit
      obtain ⟨result, hresult, hspec⟩ := ih hnext hsuits'
      rw [List.map_append, List.map_singleton] at hresult
      refine ⟨result, hresult, fun placements hok => ?_⟩
      obtain ⟨done', available', hrepresents, hall, hdone, hplacements⟩ := hspec placements hok
      refine ⟨done', available', hrepresents, hall, ?_, hplacements⟩
      rw [hdone, List.map_append, List.append_assoc]
      rfl

/-! ## The order of the input -/

theorem insertionSort_perm {α : Type} {id : α → String} {as as' : List α} (h : as'.Perm as)
    (hids : (as.map id).Nodup) :
    as'.insertionSort (id · ≤ id ·) = as.insertionSort (id · ≤ id ·) := by
  have : Std.Total fun a b : α => id a ≤ id b := ⟨fun a b => le_total _ _⟩
  have : IsTrans α fun a b => id a ≤ id b := ⟨fun _ _ _ => le_trans⟩
  have hsorted : ∀ l : List α, (l.insertionSort (id · ≤ id ·)).Pairwise fun a b => id a ≤ id b :=
    List.pairwise_insertionSort _
  have hleft := (List.perm_insertionSort (id · ≤ id ·) as').trans h
  have hright := List.perm_insertionSort (id · ≤ id ·) as
  refine (hleft.trans hright.symm).eq_of_pairwise (fun a b ha hb hab hba => ?_) (hsorted as')
    (hsorted as)
  exact List.inj_on_of_nodup_map hids (hleft.mem_iff.mp ha) (hright.mem_iff.mp hb)
    (le_antisymm hab hba)

variable {nodes nodes' : List Node}

theorem place_perm {tasks tasks' : List Task}
    (hnodes : (nodes.map Node.id).Nodup) (htasks : (tasks.map Task.id).Nodup)
    (hn : nodes'.Perm nodes) (ht : tasks'.Perm tasks) : place nodes' tasks' = place nodes tasks := by
  rw [place, place, insertionSort_perm hn hnodes, insertionSort_perm ht htasks]

/-! ## Placements -/

def placedOn (tasks : List Task) (placements : List Placement) (node : Node) : List Task :=
  tasks.filter fun task => ⟨task.id, node.id⟩ ∈ placements

/-- Every task stands once, on a node that suits it, and no node holds more than it has; the limit
of tasks is kept where a task was placed. -/
structure Sound (nodes : List Node) (tasks : List Task) (placements : List Placement) : Prop where
  once : (placements.map Placement.taskId).Perm (tasks.map Task.id)
  suits : ∀ p ∈ placements, ∃ node ∈ nodes, ∃ task ∈ tasks, node.id = p.nodeId ∧
    task.id = p.taskId ∧ node.healthy = true ∧ carries node task = true
  cpu : ∀ node ∈ nodes, cpuOf (placedOn tasks placements node) ≤ node.cpuMillis.toNat
  memory : ∀ node ∈ nodes, memoryOf (placedOn tasks placements node) ≤ node.memoryBytes.toNat
  limit : ∀ node ∈ nodes, placedOn tasks placements node = [] ∨
    node.runningTasks.toNat + (placedOn tasks placements node).length ≤ node.taskLimit.toNat

theorem placedOn_perm
    (htasks : (tasks.map Task.id).Nodup) (hdone : (done.map Prod.fst).Perm tasks) (node : Node) :
    (placedOn tasks (done.map Assigned.placement) node).Perm (tasksOn done node.id) := by
  have hids : (done.map fun a => a.1.id).Nodup := by
    have hmap := (hdone.map Task.id).nodup_iff.mpr htasks
    rwa [List.map_map] at hmap
  have hsame : ∀ a ∈ done, decide ((⟨a.1.id, node.id⟩ : Placement) ∈ done.map Assigned.placement)
      = decide (a.2 = node.id) := by
    intro a ha
    refine decide_eq_decide.mpr ⟨fun hmem => ?_, fun heq => ?_⟩
    · obtain ⟨b, hb, hplacement⟩ := List.mem_map.mp hmem
      obtain ⟨hid, hnode⟩ := Placement.mk.inj hplacement
      obtain rfl := List.inj_on_of_nodup_map hids hb ha hid
      exact hnode
    · exact List.mem_map.mpr ⟨a, ha, heq ▸ rfl⟩
  have hfilter := (hdone.filter
    fun task => decide ((⟨task.id, node.id⟩ : Placement) ∈ done.map Assigned.placement)).symm
  rw [List.filter_map] at hfilter
  refine hfilter.trans (List.Perm.of_eq ?_)
  rw [tasksOn]
  exact congrArg _ (List.filter_congr hsame)

theorem Represents.sound
    (htasks : (tasks.map Task.id).Nodup) (h : Represents nodes done available)
    (hsuits : ∀ a ∈ done, Suits nodes a) (hdone : (done.map Prod.fst).Perm tasks) :
    Sound nodes tasks (done.map Assigned.placement) := by
  have hnode : ∀ node ∈ nodes, ∃ rest, Reserved done node rest := by
    intro node hmem
    obtain ⟨i, hi, hget⟩ := List.mem_iff_getElem.mp hmem
    have hi' : i < available.length := h.length ▸ hi
    exact ⟨available[i], h.reserved i node _ (List.getElem?_eq_some_iff.mpr ⟨hi, hget⟩)
      (List.getElem?_eq_getElem hi')⟩
  have hplaced := placedOn_perm htasks hdone
  refine ⟨?_, fun p hp => ?_, fun node hmem => ?_, fun node hmem => ?_, fun node hmem => ?_⟩
  · rw [List.map_map]
    have hmap := hdone.map Task.id
    rwa [List.map_map] at hmap
  · obtain ⟨a, ha, rfl⟩ := List.mem_map.mp hp
    obtain ⟨node, hmem, hid, hhealthy, hcarries⟩ := hsuits a ha
    exact ⟨node, hmem, a.1, hdone.mem_iff.mp (List.mem_map_of_mem ha), hid, rfl, hhealthy, hcarries⟩
  · obtain ⟨rest, hrest⟩ := hnode node hmem
    have hcpu := hrest.cpu
    have hsum : cpuOf (placedOn tasks (done.map Assigned.placement) node)
        = cpuOf (tasksOn done node.id) := ((hplaced node).map _).sum_eq
    omega
  · obtain ⟨rest, hrest⟩ := hnode node hmem
    have hmemory := hrest.memory
    have hsum : memoryOf (placedOn tasks (done.map Assigned.placement) node)
        = memoryOf (tasksOn done node.id) := ((hplaced node).map _).sum_eq
    omega
  · obtain ⟨rest, hrest⟩ := hnode node hmem
    by_cases hnone : tasksOn done node.id = []
    · left
      exact List.perm_nil.mp (hnone ▸ hplaced node)
    · right
      have hlimit := UInt64.le_iff_toNat_le.mp (hrest.limit hnone)
      have hrunning := hrest.running
      rw [(hplaced node).length_eq, ← hrest.taskLimit]
      omega

theorem Sound.of_perm {placements : List Placement}
    (h : Sound nodes' tasks placements) (hperm : nodes'.Perm nodes) : Sound nodes tasks placements where
  once := h.once
  suits p hp := by
    obtain ⟨node, hnode, hrest⟩ := h.suits p hp
    exact ⟨node, hperm.mem_iff.mp hnode, hrest⟩
  cpu node hnode := h.cpu node (hperm.mem_iff.mpr hnode)
  memory node hnode := h.memory node (hperm.mem_iff.mpr hnode)
  limit node hnode := h.limit node (hperm.mem_iff.mpr hnode)

theorem le_u64Max (x : UInt64) : x ≤ u64Max := by
  rw [UInt64.le_iff_toNat_le]
  have hx := x.toNat_lt
  have hmax : u64Max.toNat = 2 ^ 64 - 1 := rfl
  omega

/-- With distinct ids, placing never overflows, does not depend on the order of its input, and
what it returns is sound. -/
theorem place_sound (nodes : List Node) (tasks : List Task) (hnodes : (nodes.map Node.id).Nodup)
    (htasks : (tasks.map Task.id).Nodup) :
    (∃ result, place nodes tasks = some result ∧
      (∀ placements, result = .ok placements → Sound nodes tasks placements) ∧
      ∀ nodes' tasks', nodes'.Perm nodes → tasks'.Perm tasks → place nodes' tasks' = some result) ∧
    ∀ node : Node, node.cpuMillis ≤ u64Max ∧ node.memoryBytes ≤ u64Max := by
  refine ⟨?_, fun node => ⟨le_u64Max _, le_u64Max _⟩⟩
  have hsorted := List.perm_insertionSort (fun a b : Node => a.id ≤ b.id) nodes
  have hsortedTasks := List.perm_insertionSort (fun a b : Task => a.id ≤ b.id) tasks
  have hstart : Represents (nodes.insertionSort (·.id ≤ ·.id)) []
      (nodes.insertionSort (·.id ≤ ·.id)) := by
    refine ⟨rfl, fun i node rest hnode hrest => ?_⟩
    obtain rfl := Option.some.inj (hnode.symm.trans hrest)
    exact .initial node
  obtain ⟨result, hresult, hspec⟩ := placeAll_spec
    ((hsorted.map Node.id).nodup_iff.mpr hnodes) hstart (fun a ha => nomatch ha)
  refine ⟨result, hresult, fun placements hok => ?_, fun nodes' tasks' hn ht => ?_⟩
  · obtain ⟨done, available, hrepresents, hsuits, hdone, rfl⟩ := hspec placements hok
    have hperm : (done.map Prod.fst).Perm tasks := by
      rw [hdone]
      exact hsortedTasks
    exact (hrepresents.sound htasks hsuits hperm).of_perm hsorted
  · rw [place_perm hnodes htasks hn ht]
    exact hresult

def smallNode (id : String) : Node := ⟨id, .empty, 500, 500, 4, 0, true⟩

def smallTask (id : String) : Task := ⟨id, 500, 500, .empty⟩

theorem place_sound_pair :
    (∃ result, place [smallNode "b", smallNode "a"] [smallTask "y", smallTask "x"] = some result ∧
      (∀ placements, result = .ok placements →
        Sound [smallNode "b", smallNode "a"] [smallTask "y", smallTask "x"] placements) ∧
      ∀ nodes' tasks', nodes'.Perm [smallNode "b", smallNode "a"] →
        tasks'.Perm [smallTask "y", smallTask "x"] → place nodes' tasks' = some result) ∧
    ∀ node : Node, node.cpuMillis ≤ u64Max ∧ node.memoryBytes ≤ u64Max :=
  place_sound [smallNode "b", smallNode "a"] [smallTask "y", smallTask "x"] (by decide +kernel)
    (by decide +kernel)

def crowdedNode : Node := ⟨"a", .empty, 500, 500, 4, 5, true⟩

/-- Nothing is placed on it, and it stays above the limit. -/
theorem crowded_node_above_limit :
    place [crowdedNode] [] = some (.ok []) ∧ ([crowdedNode].map Node.id).Nodup ∧
      ¬ crowdedNode.runningTasks.toNat + (placedOn [] [] crowdedNode).length
        ≤ crowdedNode.taskLimit.toNat := by
  refine ⟨rfl, by simp, by decide +kernel⟩

end Ferrocrate.Manager.Scheduler

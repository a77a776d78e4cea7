import Ferrocrate.Node.NodeRun

/-! The revision floor. Every stop of an update looks at the floor, and so do not the stops of a
rollback: the floor holds all through a pass when the instances a rollback spares reach it. -/
namespace Ferrocrate.Node
open Lib
open Lib.Program

def healthyIn (service : String) (instances : OrdMap String InstanceView) : Nat :=
  healthyCount service (instances.entries.map Prod.snd)

theorem healthyIn_eq (service : String) (instances : OrdMap String InstanceView) :
    healthyIn service instances
      = instances.entries.countP fun entry => entry.2.service = service ∧ entry.2.healthy := by
  simp only [healthyIn, healthyCount, List.countP_map]
  rfl

variable {service id : String} {instances : OrdMap String InstanceView} {view : InstanceView}

theorem healthyIn_insert : healthyIn service (instances.insert id view)
    = healthyIn service (instances.erase id)
      + if view.service = service ∧ view.healthy then 1 else 0 := by
  rw [healthyIn_eq, healthyIn_eq, (instances.perm_insert id view).countP_eq, List.countP_cons]
  simp

theorem healthyIn_erase (h : instances.get id = some view) :
    healthyIn service instances = healthyIn service (instances.erase id)
      + if view.service = service ∧ view.healthy then 1 else 0 := by
  rw [healthyIn_eq, healthyIn_eq, (OrdMap.perm_erase h).countP_eq, List.countP_cons]
  simp

variable {published : List DesiredWorkload} {h : NodeHost} {intent : MutationIntent}

theorem Placed.service_eq (hp : Placed published h) {revision : UInt64} {index : Nat}
    (hid : id = instanceId service revision index)
    (hget : h.executor.instances.get id = some view) :
    view.service = service ∧ view.revision = revision := by
  obtain ⟨index', hid', -⟩ := (hp.sits id view hget).numbered
  obtain ⟨hservice, hrevision, -⟩ := instanceId_inj.mp (hid ▸ hid')
  exact ⟨hservice.symm, hrevision.symm⟩

theorem healthyIn_start (hp : Placed published h) {index : Nat}
    (hstart : intent.action = .start)
    (hid : intent.instanceId = instanceId intent.service intent.targetRevision index) :
    healthyIn service h.executor.instances
      ≤ healthyIn service (h.executor.mutate intent).2.instances := by
  rcases mutate_cases h.executor intent with ⟨_, -, hsame⟩ | ⟨-, -, hinsert⟩ | ⟨hstop, -⟩
  · rw [hsame]
  · rw [hinsert]
    simp only [healthyIn_insert]
    cases hget : h.executor.instances.get intent.instanceId with
    | none =>
      rw [OrdMap.erase_of_get_eq_none hget]
      omega
    | some view =>
      rw [healthyIn_erase hget, (hp.service_eq hid hget).1,
        (hp.sits _ view hget).healthy]
      exact Nat.le_refl _
  · rw [hstart] at hstop
    cases hstop

theorem healthyIn_stop
    (hother : ∀ view, h.executor.instances.get intent.instanceId = some view →
      ¬(view.service = service ∧ view.healthy)) (hstop : intent.action = .stop) :
    healthyIn service (h.executor.mutate intent).2.instances
      = healthyIn service h.executor.instances := by
  rcases mutate_cases h.executor intent with ⟨_, -, hsame⟩ | ⟨hstart, -⟩ | ⟨-, -, herase⟩
  · rw [hsame]
  · rw [hstop] at hstart
    cases hstart
  · rw [herase]
    simp only
    cases hget : h.executor.instances.get intent.instanceId with
    | none => rw [OrdMap.erase_of_get_eq_none hget]
    | some view => rw [healthyIn_erase hget, if_neg (hother view hget), Nat.add_zero]

theorem floor_le_stop (hp : Placed published h) {floor : Nat} (hstop : intent.action = .stop)
    (hnow : floor ≤ healthyIn service h.executor.instances)
    (hfloor : floor ≤ healthyWithout service intent.instanceId h.executor.list) :
    floor ≤ healthyIn service (h.executor.mutate intent).2.instances := by
  by_cases hhealthy : ∃ view, h.executor.instances.get intent.instanceId = some view ∧
      view.service = service ∧ view.healthy = true
  · obtain ⟨view, hget, hservice, hhealthy⟩ := hhealthy
    have hcount : healthyIn service h.executor.instances = _ := healthyIn_erase hget
    rw [if_pos ⟨hservice, hhealthy⟩] at hcount
    have hany : (h.executor.list.any fun view =>
        view.instanceId = intent.instanceId ∧ view.healthy) = true := by
      rw [List.any_eq_true]
      exact ⟨view, mem_list_iff.mpr ⟨_, hget⟩, by simp [(hp.sits _ view hget).key, hhealthy]⟩
    rw [healthyWithout, hany] at hfloor
    have hlist : healthyCount service h.executor.list
        = healthyIn service h.executor.instances := rfl
    rw [hlist] at hfloor
    rcases mutate_cases h.executor intent with ⟨_, -, hsame⟩ | ⟨hstart, -⟩ | ⟨-, -, herase⟩
    · rw [hsame]
      exact hnow
    · rw [hstop] at hstart
      cases hstart
    · rw [herase]
      simp only [Bool.toNat_true] at hfloor ⊢
      omega
  · rw [healthyIn_stop (fun view hget hview => hhealthy ⟨view, hget, hview⟩) hstop]
    exact hnow

theorem healthyCount_le_of_spared {e : RecordingExecutor} {revision : UInt64}
    (hspared : Spared h revision e) :
    healthyCount service (h.executor.list.filter fun view => view.revision ≠ revision)
      ≤ healthyIn service e.instances := by
  have hsub : List.Subperm (h.executor.instances.entries.filter fun entry =>
      entry.2.revision ≠ revision) e.instances.entries := by
    refine List.subperm_of_subset (h.executor.instances.nodup_entries.filter _) ?_
    rintro ⟨id, v⟩ hmem
    obtain ⟨hmem, hrevision⟩ := List.mem_filter.mp hmem
    rw [← OrdMap.get_eq_some_iff] at hmem ⊢
    exact hspared id v hmem (by simpa using hrevision)
  have hcount := hsub.countP_le fun entry => entry.2.service = service ∧ entry.2.healthy
  rw [healthyIn_eq]
  refine le_trans (le_of_eq ?_) hcount
  rw [healthyCount, RecordingExecutor.list, List.filter_map, List.countP_map]
  rfl

variable {sz : NodeSizes} {h₀ : NodeHost} {now : Int64} {desired : DesiredWorkload}

/-- The services of the workload that have enough healthy instances keep enough through the whole
pass, after each of its mutations. -/
def FloorKept (sz : NodeSizes) (h₀ : NodeHost) (now : Int64) : Prop :=
  ∀ desired, h₀.workload = some desired → ∀ spec ∈ desired.services,
    spec.update.revisionFloor ≤ healthyIn spec.name h₀.executor.instances →
      ∃ events, ((reconcile sz now).after h₀).trace = events ++ h₀.trace ∧
        ∀ intent ok instances, .mutated intent ok instances ∈ events →
          spec.update.revisionFloor ≤ healthyIn spec.name instances

/-- Where a rollback of the pass begins, the instances of other revisions are enough for every
service that had enough. -/
def RollbacksSpareFloor (sz : NodeSizes) (h₀ : NodeHost) (now : Int64) : Prop :=
  ∀ desired spec old h, RollbackAt sz h₀ now desired spec old h → ∀ other ∈ desired.services,
    other.update.revisionFloor ≤ healthyIn other.name h₀.executor.instances →
      other.update.revisionFloor ≤ healthyCount other.name
        (h.executor.list.filter fun view => view.revision ≠ desired.revision)

structure Floored (published : List DesiredWorkload) (h₀ : NodeHost) (spec : ServiceSpec)
    (h : NodeHost) : Prop where
  placed : Placed published h
  now : spec.update.revisionFloor ≤ healthyIn spec.name h.executor.instances
  events : ∃ events, h.trace = events ++ h₀.trace ∧
    ∀ intent ok instances, .mutated intent ok instances ∈ events →
      spec.update.revisionFloor ≤ healthyIn spec.name instances

variable {spec : ServiceSpec}

theorem Floored.noted {h' : NodeHost} (hf : Floored published h₀ spec h) (hnoted : Noted h h') :
    Floored published h₀ spec h' := by
  obtain ⟨events, htrace, hevents⟩ := hf.events
  obtain ⟨notes, hnotes, htrace', -⟩ := hnoted.trace
  refine ⟨hf.placed.noted hnoted, hnoted.executor ▸ hf.now, notes ++ events, ?_, ?_⟩
  · rw [htrace', htrace, List.append_assoc]
  · intro intent ok instances hmem
    rcases List.mem_append.mp hmem with hnote | hevent
    · exact (hnotes _ hnote).elim
    · exact hevents intent ok instances hevent

theorem Floored.performed {seq : UInt64} (hf : Floored published h₀ spec h)
    (hplaced : Placed published ((h.announced intent seq).performed intent))
    (hnow : spec.update.revisionFloor
      ≤ healthyIn spec.name (h.executor.mutate intent).2.instances) :
    Floored published h₀ spec ((h.announced intent seq).performed intent) := by
  obtain ⟨events, htrace, hevents⟩ := (hf.noted (noted_wrote h (.intent (intent.record seq)))).events
  refine ⟨hplaced, hnow, .mutated intent (h.executor.mutate intent).1.isOk
    (h.executor.mutate intent).2.instances :: events, congrArg _ htrace, ?_⟩
  intro intent' ok instances hmem
  rcases List.mem_cons.mp hmem with heq | hevent
  · cases heq
    exact hnow
  · exact hevents intent' ok instances hevent

theorem floor_updating (hcond : RollbacksSpareFloor sz h₀ now) {Seen : InstanceView → Prop}
    {other : ServiceSpec} (hspec : spec ∈ desired.services) (hother : other ∈ desired.services)
    (hworkload : h.workload = some desired)
    (hstart : spec.update.revisionFloor ≤ healthyIn spec.name h₀.executor.instances)
    (hf : Floored published h₀ spec h)
    (hupdating : Updating sz h₀ now desired Seen other h.executor intent) :
    spec.update.revisionFloor ≤ healthyIn spec.name (h.executor.mutate intent).2.instances := by
  have hp := hf.placed
  cases hupdating with
  | startNew _ => exact hf.now.trans (healthyIn_start hp rfl rfl)
  | startOld _ _ _ _ _ => exact hf.now.trans (healthyIn_start hp rfl rfl)
  | @stopOld revision index hrevision hfloor =>
    by_cases hname : other.name = spec.name
    · obtain rfl := hp.spec_unique hworkload hother hspec hname
      exact floor_le_stop hp rfl hf.now hfloor
    · rw [healthyIn_stop ?_ rfl]
      · exact hf.now
      · rintro view hget ⟨hservice, -⟩
        exact hname ((hp.service_eq rfl hget).1.symm.trans hservice)
  | @stopFailed old hr view hat _ hget hrevision hspared =>
    refine (hcond desired other old hr hat spec hspec hstart).trans ?_
    exact healthyCount_le_of_spared (hspared.stop hget hrevision rfl)

theorem floored_invariant (hcond : RollbacksSpareFloor sz h₀ now)
    (hspec : spec ∈ desired.services)
    (hstart : spec.update.revisionFloor ≤ healthyIn spec.name h₀.executor.instances)
    (hpublished : published.getLast? = some desired) (desired' : DesiredWorkload) :
    PassInvariant published desired' (Floored published h₀ spec)
      (fun view => ∃ unhealthy, Sits published unhealthy view.instanceId view)
      (Permitted sz h₀ now desired'
        fun view => ∃ unhealthy, Sits published unhealthy view.instanceId view) where
  placed hf := hf.placed
  seen hf hget := (ManagedNode.placed_invariant sz published h₀ now desired').seen hf.placed hget
  noted hnoted hf := hf.noted hnoted
  mutated {h intent seq} hf hworkload hpermitted := by
    have hp := hf.placed
    obtain rfl : desired = desired' := by
      have hsame := hp.stored.symm.trans hworkload
      rw [hpublished] at hsame
      exact Option.some.inj hsame
    refine hf.performed (ManagedNode.placed_permitted hp hworkload (fun _ hs => hs) hpermitted) ?_
    cases hpermitted with
    | update hother hupdating =>
      exact floor_updating hcond hspec hother hworkload hstart hf hupdating
    | @stopOrphan view hseen hname =>
      rw [healthyIn_stop ?_ rfl]
      · exact hf.now
      · rintro v hget ⟨hservice, -⟩
        obtain ⟨_, hsits⟩ := hseen
        obtain ⟨index, hid, -⟩ := hsits.numbered
        refine hname ?_
        rw [← (hp.service_eq hid hget).1, hservice]
        exact List.mem_map_of_mem hspec
    | @stopSick view hseen hsick =>
      rw [healthyIn_stop ?_ rfl]
      · exact hf.now
      · rintro v hget ⟨-, hhealthy⟩
        rw [(hp.sits _ v hget).healthy] at hhealthy
        exact (of_decide_eq_true hhealthy) hsick
    | @restart view hseen =>
      obtain ⟨_, hsits⟩ := hseen
      obtain ⟨index, hid, -⟩ := hsits.numbered
      exact hf.now.trans (healthyIn_start hp rfl hid)

/-- In every state a node can reach, a pass keeps the floor after each of its mutations, as long as
the instances its rollbacks spare are enough. -/
theorem revision_floor_kept (sz : NodeSizes) (clock : Int64) (calls : List NodeCall) (now : Int64)
    (hcond : RollbacksSpareFloor sz (ManagedNode.run sz clock calls).host now) :
    FloorKept sz (ManagedNode.run sz clock calls).host now := by
  have hplaced := ManagedNode.placed_run sz clock calls
  generalize ManagedNode.run sz clock calls = n at *
  intro desired hstored spec hspec hstart
  have hpublished : n.published.getLast? = some desired := hplaced.stored ▸ hstored
  have hfloored : Floored n.published n.host spec n.host := ⟨hplaced, hstart, [], rfl, by simp⟩
  have hafter := after_of_wp (PassInvariant.wp_reconcile
    (floored_invariant hcond hspec hstart hpublished) hfloored)
  exact hafter.events

/-- The second replacement fails, and one instance of the old revision is left to the rollback. -/
def sparedUpdate : List NodeCall :=
  [.publish ⟨1, [plainService "web" "web:1" 2 1]⟩, .reconcile 1000,
    .publish ⟨2, [plainService "web" "web:2" 2 1]⟩, .failStartsFor ["web-r2-1"]]

theorem spared_update_keeps_floor :
    RollbacksSpareFloor plainSizes (ManagedNode.run plainSizes 1000 sparedUpdate).host 1000 ∧
      FloorKept plainSizes (ManagedNode.run plainSizes 1000 sparedUpdate).host 1000 := by
  have hcond :
      RollbacksSpareFloor plainSizes (ManagedNode.run plainSizes 1000 sparedUpdate).host 1000 := by
    intro desired spec old h hat other hother _
    have hstored : (ManagedNode.run plainSizes 1000 sparedUpdate).host.workload
        = some ⟨2, [plainService "web" "web:2" 2 1]⟩ := by decide +kernel
    obtain rfl : _ = desired := Option.some.inj (hstored.symm.trans hat.stored)
    obtain rfl : other = plainService "web" "web:2" 2 1 := List.mem_singleton.mp hother
    have hspared : ((rollbackAlone plainSizes (ManagedNode.run plainSizes 1000 sparedUpdate).host
        1000 2 (plainService "web" "web:2" 2 1)).all fun rollback => 1 ≤ healthyCount "web"
          (rollback.2.executor.list.filter fun view => view.revision ≠ 2)) = true := by
      decide +kernel
    rw [(rollbackAlone_eq hat rfl).2] at hspared
    exact of_decide_eq_true hspared
  exact ⟨hcond, revision_floor_kept plainSizes 1000 sparedUpdate 1000 hcond⟩

def failedUpdate : List NodeCall :=
  [.publish ⟨1, [plainService "web" "web:1" 2 2]⟩, .reconcile 1000,
    .publish ⟨2, [plainService "web" "web:2" 2 2]⟩, .failStartsFor ["web-r2-1"]]

def NodeEvent.keepsFloor (service : String) (floor : Nat) : NodeEvent → Bool
  | mutated _ _ instances => floor ≤ healthyIn service instances
  | _ => true

/-- The rollback stops the first replacement before the old instance is back. -/
theorem rollback_breaks_floor :
    ¬ FloorKept plainSizes (ManagedNode.run plainSizes 1000 failedUpdate).host 1000 := by
  intro hkept
  obtain ⟨events, htrace, hevents⟩ := hkept ⟨2, [plainService "web" "web:2" 2 2]⟩
    (by decide +kernel) (plainService "web" "web:2" 2 2) (by simp) (by decide +kernel)
  have hall : events.all (NodeEvent.keepsFloor "web" 2) = true := by
    rw [List.all_eq_true]
    intro e he
    cases e with
    | mutated intent ok instances => exact decide_eq_true (hevents intent ok instances he)
    | recorded _ => rfl
    | journalFailed _ => rfl
  have hbroken : (eventsSince (ManagedNode.run plainSizes 1000 failedUpdate).host
      ((reconcile plainSizes 1000).after (ManagedNode.run plainSizes 1000 failedUpdate).host)).all
        (NodeEvent.keepsFloor "web" 2) = false := by decide +kernel
  rw [eventsSince_eq htrace, hall] at hbroken
  cases hbroken

end Ferrocrate.Node

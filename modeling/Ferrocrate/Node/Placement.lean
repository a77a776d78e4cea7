import Ferrocrate.Node.Effects

/-! Where the instances of a node come from: every one of them belongs to a service and a revision
of a workload that was published, under the id of its place. -/
namespace Ferrocrate.Node
open Lib
open Lib.Program

structure Sits (published : List DesiredWorkload) (unhealthy : List String) (id : String)
    (view : InstanceView) : Prop where
  key : view.instanceId = id
  running : view.running = true
  healthy : view.healthy = decide (id ∉ unhealthy)
  address : view.address = some "127.0.0.1"
  origin : ∃ w ∈ published, w.revision = view.revision ∧ view.service ∈ w.services.map (·.name)
  numbered : ∃ index, id = instanceId view.service view.revision index ∧
    ∀ w, published.getLast? = some w → w.revision = view.revision →
      ∀ spec ∈ w.services, spec.name = view.service → index < spec.instances

structure Placed (published : List DesiredWorkload) (h : NodeHost) : Prop where
  increasing : published.Pairwise (fun a b => a.revision < b.revision)
  stored : h.workload = published.getLast?
  valid : ∀ w ∈ published, w.validate = .ok ()
  sits : ∀ id view, h.executor.instances.get id = some view →
    Sits published h.executor.unhealthy id view

variable {published : List DesiredWorkload} {h h' : NodeHost} {unhealthy : List String}
  {id : String} {view : InstanceView} {w : DesiredWorkload} {e : RecordingExecutor}

theorem mem_list_iff :
    view ∈ e.list ↔ ∃ id, e.instances.get id = some view := by
  simp [RecordingExecutor.list, OrdMap.get_eq_some_iff]

section
variable (hp : Placed published h)
include hp

theorem Placed.of_mem (hview : view ∈ h.executor.list) :
    h.executor.instances.get view.instanceId = some view ∧
      Sits published h.executor.unhealthy view.instanceId view := by
  obtain ⟨id, hid⟩ := mem_list_iff.mp hview
  have hsits := hp.sits id view hid
  have hkey := hsits.key
  subst hkey
  exact ⟨hid, hsits⟩

theorem Placed.congr (hworkload : h'.workload = h.workload)
    (hexecutor : h'.executor = h.executor) : Placed published h' := by
  refine ⟨hp.increasing, hworkload.trans hp.stored, hp.valid, ?_⟩
  rw [hexecutor]
  exact hp.sits

theorem Placed.noted (hnoted : Noted h h') : Placed published h' :=
  hp.congr hnoted.workload hnoted.executor

theorem Placed.names_nodup (hw : h.workload = some w) :
    w.services ≠ [] ∧ (w.services.map (·.name)).Nodup := by
  have hmem : w ∈ published := List.mem_of_getLast? (hp.stored ▸ hw)
  have hvalid := (Except.ite_error_eq_ok.mp (hp.valid w hmem)).1
  simpa using hvalid

theorem Placed.spec_unique (hw : h.workload = some w)
    {spec spec' : ServiceSpec} (hspec : spec ∈ w.services) (hspec' : spec' ∈ w.services)
    (hname : spec.name = spec'.name) : spec = spec' :=
  List.inj_on_of_nodup_map (hp.names_nodup hw).2 hspec hspec' hname

theorem Placed.list_eq_nil (hnone : h.workload = none) :
    h.executor.list = [] := by
  rw [hp.stored, List.getLast?_eq_none_iff] at hnone
  refine List.eq_nil_iff_forall_not_mem.mpr fun view hview => ?_
  obtain ⟨w, hw, -⟩ := (hp.of_mem hview).2.origin
  simp [hnone] at hw

theorem Placed.erase {h' : NodeHost} (hworkload : h'.workload = h.workload)
    (hunhealthy : h'.executor.unhealthy = h.executor.unhealthy)
    (hinstances : h'.executor.instances = h.executor.instances.erase id) : Placed published h' := by
  refine ⟨hp.increasing, hworkload.trans hp.stored, hp.valid, fun k v hget => ?_⟩
  rw [hinstances, OrdMap.get_erase] at hget
  split at hget
  · cases hget
  · exact hunhealthy ▸ hp.sits k v hget

theorem Placed.insert {h' : NodeHost}
    (hworkload : h'.workload = h.workload)
    (hunhealthy : h'.executor.unhealthy = h.executor.unhealthy)
    (hinstances : h'.executor.instances = h.executor.instances.insert id view)
    (hsits : Sits published h.executor.unhealthy id view) : Placed published h' := by
  refine ⟨hp.increasing, hworkload.trans hp.stored, hp.valid, fun k v hget => ?_⟩
  rw [hinstances, OrdMap.get_insert] at hget
  split at hget
  · next hk =>
    cases hget
    exact hk ▸ hunhealthy ▸ hsits
  · exact hunhealthy ▸ hp.sits k v hget

end

theorem mutate_cases (e : RecordingExecutor) (intent : MutationIntent) :
    (∃ error, (e.mutate intent).1 = .error error ∧ (e.mutate intent).2 = e) ∨
      (intent.action = .start ∧ (e.mutate intent).1 = .ok () ∧ (e.mutate intent).2 =
        { e with instances := e.instances.insert intent.instanceId (e.started intent) }) ∨
      (intent.action = .stop ∧ (e.mutate intent).1 = .ok () ∧ (e.mutate intent).2 =
        { e with instances := e.instances.erase intent.instanceId }) := by
  unfold RecordingExecutor.mutate
  split
  · exact .inl ⟨_, rfl, rfl⟩
  · cases haction : intent.action with
    | start =>
      simp only
      split
      · exact .inl ⟨_, rfl, rfl⟩
      · exact .inr (.inl ⟨trivial, rfl, rfl⟩)
    | stop => exact .inr (.inr ⟨rfl, rfl, rfl⟩)

theorem mutate_unhealthy (e : RecordingExecutor) (intent : MutationIntent) :
    (e.mutate intent).2.unhealthy = e.unhealthy := by
  rcases mutate_cases e intent with ⟨_, -, h⟩ | ⟨-, -, h⟩ | ⟨-, -, h⟩ <;> rw [h]

variable {intent : MutationIntent}

theorem sits_started {index : Nat}
    (hid : intent.instanceId = instanceId intent.service intent.targetRevision index)
    (horigin : ∃ w ∈ published, w.revision = intent.targetRevision ∧
      intent.service ∈ w.services.map (·.name))
    (hindex : ∀ w, published.getLast? = some w → w.revision = intent.targetRevision →
      ∀ spec ∈ w.services, spec.name = intent.service → index < spec.instances) :
    Sits published e.unhealthy intent.instanceId (e.started intent) :=
  ⟨rfl, rfl, rfl, rfl, horigin, index, hid, hindex⟩

def Spared (h : NodeHost) (revision : UInt64) (e : RecordingExecutor) : Prop :=
  ∀ id v, h.executor.instances.get id = some v → v.revision ≠ revision →
    e.instances.get id = some v

theorem Spared.stop {revision : UInt64} (hs : Spared h revision e) (hview : h.executor.instances.get intent.instanceId = some view)
    (hrevision : view.revision = revision) (hstop : intent.action = .stop) :
    Spared h revision (e.mutate intent).2 := by
  intro id v hget hv
  rcases mutate_cases e intent with ⟨_, -, hsame⟩ | ⟨hstart, -⟩ | ⟨-, -, herase⟩
  · rw [hsame]
    exact hs id v hget hv
  · rw [hstop] at hstart
    cases hstart
  · rw [herase]
    have hne : id ≠ intent.instanceId := by
      rintro rfl
      rw [hview] at hget
      cases hget
      exact hv hrevision
    simp only [OrdMap.get_erase, if_neg hne]
    exact hs id v hget hv

theorem Placed.get_eq_none (hp : Placed published h) {service : String} {revision : UInt64}
    {index : Nat} (hmissing : instanceId service revision index ∉
      (h.executor.list.filter fun view => view.revision = revision).map (·.instanceId)) :
    h.executor.instances.get (instanceId service revision index) = none := by
  cases hget : h.executor.instances.get (instanceId service revision index) with
  | none => rfl
  | some v =>
    have hsits := hp.sits _ v hget
    obtain ⟨index', hid, -⟩ := hsits.numbered
    have hrevision : revision = v.revision := (instanceId_inj.mp hid).2.1
    refine absurd ?_ hmissing
    have hlist : v ∈ h.executor.list := mem_list_iff.mpr ⟨_, hget⟩
    simp only [List.mem_map, List.mem_filter, decide_eq_true_eq]
    exact ⟨v, ⟨hlist, hrevision.symm⟩, hsits.key⟩

end Ferrocrate.Node

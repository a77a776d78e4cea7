import Ferrocrate.Node.Pass

/-! Runs of a node: workloads are published, passes are made and cut, the process restarts, and
around it the clock moves, instances fail and recover, and writes fail. -/
namespace Ferrocrate.Node
open Lib
open Lib.Program

inductive NodeCall where
  | publish (workload : DesiredWorkload)
  | reconcile (now : Int64)
  | restart (now : Int64)
  | arm (faults : List LifecycleFaultPoint)
  | fates (appendFails : List Bool)
  | setUnhealthy (id : String)
  | clearUnhealthy (id : String)
  | failStartsFor (ids : List String)
  | tick (clock : Int64)

structure ManagedNode where
  host : NodeHost
  published : List DesiredWorkload

def NodeHost.new (clock : Int64) : NodeHost :=
  ⟨⟨.empty, [], [], clock⟩, none, none, none, none, .default, .empty, [], [], []⟩

namespace ManagedNode

def new (clock : Int64) : ManagedNode := ⟨.new clock, []⟩

def withExecutor (n : ManagedNode) (f : RecordingExecutor → RecordingExecutor) : ManagedNode :=
  { n with host := { n.host with executor := f n.host.executor } }

section Step
variable (sz : NodeSizes)

def step (n : ManagedNode) : NodeCall → ManagedNode
  | .publish workload =>
    match publishDesired sz workload n.host with
    | (.ok (), host) => ⟨host, n.published ++ [workload]⟩
    | (.error _, host) => { n with host := host }
  | .reconcile now => { n with host := (reconcile sz now).after n.host }
  | .restart now => { n with host := n.host.reopen now }
  | .arm faults => { n with host := { n.host with faults := faults } }
  | .fates appendFails => { n with host := { n.host with appendFails := appendFails } }
  | .setUnhealthy id => n.withExecutor (·.setUnhealthy id)
  | .clearUnhealthy id => n.withExecutor (·.clearUnhealthy id)
  | .failStartsFor ids => n.withExecutor fun e => { e with failStartsFor := ids }
  | .tick clock => n.withExecutor fun e => { e with clock := clock }

def run (clock : Int64) (calls : List NodeCall) : ManagedNode := calls.foldl (step sz) (new clock)

end Step

variable {sz : NodeSizes} {published : List DesiredWorkload} {h h₀ : NodeHost} {now : Int64}
  {desired : DesiredWorkload} {intent : MutationIntent} {seq : UInt64}

theorem placed_start (hp : Placed published h) {index : Nat}
    (hid : intent.instanceId = instanceId intent.service intent.targetRevision index)
    (horigin : ∃ w ∈ published, w.revision = intent.targetRevision ∧
      intent.service ∈ w.services.map (·.name))
    (hindex : ∀ w, published.getLast? = some w → w.revision = intent.targetRevision →
      ∀ spec ∈ w.services, spec.name = intent.service → index < spec.instances) :
    Placed published ((h.announced intent seq).performed intent) := by
  rcases mutate_cases h.executor intent with ⟨_, -, hsame⟩ | ⟨-, -, hinsert⟩ | ⟨-, -, herase⟩
  · exact hp.congr rfl hsame
  · exact hp.insert rfl (mutate_unhealthy _ _) (congrArg RecordingExecutor.instances hinsert)
      (sits_started hid horigin hindex)
  · exact hp.erase rfl (mutate_unhealthy _ _) (congrArg RecordingExecutor.instances herase)

theorem placed_stop (hp : Placed published h) (hstop : intent.action = .stop) :
    Placed published ((h.announced intent seq).performed intent) := by
  rcases mutate_cases h.executor intent with ⟨_, -, hsame⟩ | ⟨hstart, -⟩ | ⟨-, -, herase⟩
  · exact hp.congr rfl hsame
  · rw [hstop] at hstart
    cases hstart
  · exact hp.erase rfl (mutate_unhealthy _ _) (congrArg RecordingExecutor.instances herase)

variable {Seen : InstanceView → Prop}

theorem placed_updating (hp : Placed published h) (hworkload : h.workload = some desired) {spec : ServiceSpec} (hspec : spec ∈ desired.services)
    (hseen : ∀ view, Seen view → ∃ unhealthy, Sits published unhealthy view.instanceId view)
    (hupdating : Updating sz h₀ now desired Seen spec h.executor intent) :
    Placed published ((h.announced intent seq).performed intent) := by
  have hnewest : published.getLast? = some desired := hp.stored ▸ hworkload
  cases hupdating with
  | @startNew index hindex =>
    refine placed_start hp rfl ⟨desired, List.mem_of_getLast? hnewest, rfl,
      List.mem_map_of_mem hspec⟩ ?_
    intro w hw _ spec' hspec' hname
    rw [hnewest] at hw
    cases hw
    rw [hp.spec_unique hworkload hspec' hspec hname]
    exact hindex
  | stopOld _ _ => exact placed_stop hp rfl
  | stopFailed _ _ _ _ _ => exact placed_stop hp rfl
  | @startOld old h' index _ hold horigin hindex _ =>
    obtain ⟨view, hview, hservice, hrevision⟩ := horigin
    obtain ⟨_, hsits⟩ := hseen view hview
    refine placed_start hp rfl (hservice ▸ hrevision ▸ hsits.origin) ?_
    intro w hw hwold
    rw [hnewest] at hw
    cases hw
    exact absurd hwold.symm hold

theorem placed_permitted (hp : Placed published h) (hworkload : h.workload = some desired)
    (hseen : ∀ view, Seen view → ∃ unhealthy, Sits published unhealthy view.instanceId view)
    (hpermitted : Permitted sz h₀ now desired Seen h.executor intent) :
    Placed published ((h.announced intent seq).performed intent) := by
  cases hpermitted with
  | update hspec hupdating => exact placed_updating hp hworkload hspec hseen hupdating
  | stopOrphan _ _ => exact placed_stop hp rfl
  | stopSick _ _ => exact placed_stop hp rfl
  | @restart view hview =>
    obtain ⟨_, hsits⟩ := hseen view hview
    obtain ⟨index, hid, hindex⟩ := hsits.numbered
    exact placed_start hp hid hsits.origin hindex

theorem placed_invariant (sz : NodeSizes) (published : List DesiredWorkload) (h₀ : NodeHost)
    (now : Int64) (desired : DesiredWorkload) :
    PassInvariant published desired (Placed published)
      (fun view => ∃ unhealthy, Sits published unhealthy view.instanceId view)
      (Permitted sz h₀ now desired
        fun view => ∃ unhealthy, Sits published unhealthy view.instanceId view) where
  placed hp := hp
  seen hp hget := by
    have hsits := hp.sits _ _ hget
    exact ⟨_, hsits.key.symm ▸ hsits⟩
  noted hnoted hp := hp.noted hnoted
  mutated hp hworkload hpermitted := placed_permitted hp hworkload (fun _ hseen => hseen) hpermitted

theorem placed_health (hp : Placed published h) {id : String} {healthy : Bool}
    {unhealthy : List String} (hid : decide (id ∉ unhealthy) = healthy)
    (hothers : ∀ k, k ≠ id → (k ∈ unhealthy ↔ k ∈ h.executor.unhealthy)) :
    Placed published { h with executor := { h.executor with
      unhealthy := unhealthy
      instances := h.executor.instances.modify id fun view => { view with healthy := healthy } } } := by
  refine ⟨hp.increasing, hp.stored, hp.valid, fun k view hget => ?_⟩
  rw [OrdMap.get_modify] at hget
  by_cases hk : k = id
  · subst hk
    rw [if_pos rfl] at hget
    obtain ⟨v, hv, rfl⟩ := Option.map_eq_some_iff.mp hget
    have hsits := hp.sits k v hv
    exact ⟨hsits.key, hsits.running, hid.symm, hsits.address, hsits.origin, hsits.numbered⟩
  · rw [if_neg hk] at hget
    have hsits := hp.sits k view hget
    refine ⟨hsits.key, hsits.running, ?_, hsits.address, hsits.origin, hsits.numbered⟩
    rw [hsits.healthy]
    simp only [hothers k hk]

theorem save_eq_ok {workloadBytes : DesiredWorkload → Nat} {store store' : WorkloadStore}
    {w : DesiredWorkload} (hsave : store.save workloadBytes w = .ok store') :
    w.validate = .ok () ∧ store' = some w ∧
      ∀ current, store = some current → current.revision < w.revision := by
  obtain ⟨⟨⟩, hvalid, hsave⟩ := Except.bind_eq_ok.mp hsave
  obtain ⟨stored, hload, hsave⟩ := Except.bind_eq_ok.mp hsave
  cases stored with
  | none =>
    cases hsave
    refine ⟨hvalid, rfl, fun current hcurrent => ?_⟩
    rw [PassInvariant.load_eq_ok_none hload] at hcurrent
    cases hcurrent
  | some newest =>
    obtain ⟨hlt, hsave⟩ := Except.ite_error_eq_ok.mp hsave
    cases hsave
    refine ⟨hvalid, rfl, fun current hcurrent => ?_⟩
    rw [PassInvariant.load_eq_ok_some hload] at hcurrent
    cases hcurrent
    exact UInt64.not_le.mp hlt

theorem publishDesired_cases (sz : NodeSizes) (w : DesiredWorkload) (h : NodeHost) :
    (∃ e, publishDesired sz w h = (.error e, h)) ∨
      (publishDesired sz w h = (.ok (), { h with workload := some w }) ∧ w.validate = .ok () ∧
        ∀ current, h.workload = some current → current.revision < w.revision) := by
  have hwp : wp (publishDesired sz w) (fun _ h' => h' = { h with workload := some w } ∧
      w.validate = .ok () ∧ ∀ current, h.workload = some current → current.revision < w.revision)
      (fun _ h' => h' = h) h := by
    simp only [publishDesired, wp_bind, wp_ofExcept, wp_rejectIf, wp_get, wp_modify]
    refine ⟨fun _ _ => ⟨fun _ => trivial, fun _ => ⟨fun store hsave => ?_, fun _ _ => trivial⟩⟩,
      fun _ _ => trivial⟩
    obtain ⟨hvalid, rfl, hnewer⟩ := save_eq_ok hsave
    exact ⟨rfl, hvalid, hnewer⟩
  have hself := wp_and hwp (wp_self _ h)
  unfold wp at hself
  cases hrun : publishDesired sz w h with
  | mk r h' =>
    rw [hrun] at hself
    cases r with
    | error e => exact .inl ⟨e, by rw [hself.1]⟩
    | ok u => exact .inr ⟨by rw [hself.1.1], hself.1.2⟩

theorem placed_publish (hp : Placed published h) {w : DesiredWorkload} (hvalid : w.validate = .ok ())
    (hnewer : ∀ current, h.workload = some current → current.revision < w.revision) :
    Placed (published ++ [w]) { h with workload := some w } := by
  have hbelow : ∀ w' ∈ published, w'.revision < w.revision := by
    intro w' hw'
    obtain ⟨older, newest, rfl⟩ : ∃ older newest, published = older ++ [newest] :=
      ⟨_, _, (List.dropLast_append_getLast (List.ne_nil_of_mem hw')).symm⟩
    have hnewest := hnewer newest (by rw [hp.stored]; simp)
    rcases List.mem_append.mp hw' with hold | hlast
    · exact UInt64.lt_trans ((List.pairwise_append.mp hp.increasing).2.2 w' hold newest (by simp))
        hnewest
    · exact List.mem_singleton.mp hlast ▸ hnewest
  refine ⟨?_, by simp, ?_, fun id view hget => ?_⟩
  · exact List.pairwise_append.mpr ⟨hp.increasing, List.pairwise_singleton _ _,
      fun a ha b hb => List.mem_singleton.mp hb ▸ hbelow a ha⟩
  · intro w' hw'
    rcases List.mem_append.mp hw' with hold | hlast
    · exact hp.valid w' hold
    · exact List.mem_singleton.mp hlast ▸ hvalid
  · have hsits := hp.sits id view hget
    obtain ⟨w', hw', hrevision, hservice⟩ := hsits.origin
    obtain ⟨index, hid, -⟩ := hsits.numbered
    refine ⟨hsits.key, hsits.running, hsits.healthy, hsits.address,
      ⟨w', List.mem_append_left _ hw', hrevision, hservice⟩, index, hid, ?_⟩
    intro newest hnewest hsame
    rw [List.getLast?_append_of_ne_nil _ (by simp), List.getLast?_singleton] at hnewest
    cases hnewest
    exact absurd (hsame.trans hrevision.symm).symm (UInt64.ne_of_lt (hbelow w' hw'))

theorem placed_step (sz : NodeSizes) {n : ManagedNode} (hp : Placed n.published n.host) (call : NodeCall) :
    Placed (n.step sz call).published (n.step sz call).host := by
  cases call with
  | publish w =>
    rcases publishDesired_cases sz w n.host with ⟨e, hrun⟩ | ⟨hrun, hvalid, hnewer⟩
    · simp only [step, hrun]
      exact hp
    · simp only [step, hrun]
      exact placed_publish hp hvalid hnewer
  | reconcile now =>
    exact after_of_wp (PassInvariant.wp_reconcile (placed_invariant sz n.published n.host now) hp)
  | restart now => exact hp.congr rfl rfl
  | arm faults => exact hp.congr rfl rfl
  | fates appendFails => exact hp.congr rfl rfl
  | setUnhealthy id =>
    exact placed_health hp (by simp) fun k hk => by simp [hk]
  | clearUnhealthy id =>
    exact placed_health hp (by simp) fun k hk => by simp [hk]
  | failStartsFor ids => exact ⟨hp.increasing, hp.stored, hp.valid, hp.sits⟩
  | tick clock => exact ⟨hp.increasing, hp.stored, hp.valid, hp.sits⟩

theorem placed_run (sz : NodeSizes) (clock : Int64) (calls : List NodeCall) :
    Placed (run sz clock calls).published (run sz clock calls).host := by
  have hnew : Placed (new clock).published (new clock).host :=
    ⟨List.Pairwise.nil, rfl, by simp [new], fun id view hget => by simp [new, NodeHost.new] at hget⟩
  unfold run
  generalize new clock = n at hnew
  induction calls generalizing n with
  | nil => exact hnew
  | cons call calls ih => exact ih _ (placed_step sz hnew call)

/-- The ids of the listed instances are the keys they are found under. -/
theorem placed_ids_nodup (hp : Placed published h) :
    (h.executor.list.map (·.instanceId)).Nodup := by
  have hids : h.executor.list.map (·.instanceId) = h.executor.instances.keys := by
    rw [RecordingExecutor.list, OrdMap.keys, List.map_map]
    refine List.map_congr_left fun entry hentry => ?_
    exact (hp.sits _ _ ((OrdMap.get_eq_some_iff _).mpr hentry)).key
  rw [hids]
  exact h.executor.instances.nodup_keys

theorem placed_id_mem (hp : Placed published h) (hnewest : published.getLast? = some desired)
    {spec : ServiceSpec} (hspec : spec ∈ desired.services) {view : InstanceView}
    (hview : view ∈ h.executor.list) (hservice : view.service = spec.name)
    (hrevision : view.revision = desired.revision) :
    view.instanceId ∈ spec.instanceIds desired.revision := by
  obtain ⟨key, hget⟩ := mem_list_iff.mp hview
  have hsits := hp.sits key view hget
  obtain ⟨index, hindex, hbound⟩ := hsits.numbered
  rw [ServiceSpec.instanceIds, hsits.key, hindex, hservice, hrevision]
  exact List.mem_map_of_mem (List.mem_range.mpr
    (hbound desired hnewest hrevision.symm spec hspec hservice.symm))

/-- **No service outgrows its workload.** In every state of every run, whatever failed, was cut or
restarted on the way, each listed instance belongs to a service of a published workload of its
revision, and a service of the stored workload has at most as many instances at the workload's
revision as it asks for. -/
theorem instances_within_workload (sz : NodeSizes) (clock : Int64) (calls : List NodeCall) :
    (∀ view ∈ (run sz clock calls).host.executor.list, ∃ w ∈ (run sz clock calls).published,
      w.revision = view.revision ∧ view.service ∈ w.services.map (·.name)) ∧
    ∀ w, (run sz clock calls).host.workload = some w → ∀ spec ∈ w.services,
      ((run sz clock calls).host.executor.list.filter fun view =>
        view.service = spec.name ∧ view.revision = w.revision).length ≤ spec.instances := by
  have hplaced := placed_run sz clock calls
  generalize run sz clock calls = n at hplaced ⊢
  refine ⟨fun view hview => ?_, fun w hw spec hspec => ?_⟩
  · obtain ⟨id, hget⟩ := mem_list_iff.mp hview
    exact (hplaced.sits id view hget).origin
  · have hnewest : n.published.getLast? = some w := hplaced.stored ▸ hw
    have hnodup : ((n.host.executor.list.filter fun view =>
        view.service = spec.name ∧ view.revision = w.revision).map (·.instanceId)).Nodup := by
      exact (placed_ids_nodup hplaced).sublist (List.filter_sublist.map _)
    have hsub : ∀ id ∈ (n.host.executor.list.filter fun view =>
        view.service = spec.name ∧ view.revision = w.revision).map (·.instanceId),
        id ∈ spec.instanceIds w.revision := by
      intro id hid
      obtain ⟨view, hview, rfl⟩ := List.mem_map.mp hid
      simp only [List.mem_filter, decide_eq_true_eq] at hview
      exact placed_id_mem hplaced hnewest hspec hview.1 hview.2.1 hview.2.2
    have hlength := (List.subperm_of_subset hnodup hsub).length_le
    rw [List.length_map] at hlength
    exact hlength.trans (by simp [ServiceSpec.instanceIds])

end ManagedNode

/-! The sizes of texts whose names need no escapes. -/

def decimalBytes (n : Nat) : Nat := (Nat.toDigits 10 n).length

def plainServiceBytes (s : ServiceSpec) : Nat :=
  201 + s.name.utf8ByteSize + s.image.utf8ByteSize + decimalBytes s.instances
    + decimalBytes s.cpuMillisPerInstance.toNat + decimalBytes s.memoryBytesPerInstance.toNat
    + decimalBytes s.port.toNat + decimalBytes s.update.maxSurge
    + decimalBytes s.update.maxUnavailable + decimalBytes s.update.revisionFloor
    + decimalBytes s.update.healthAttempts + decimalBytes s.health.retries

def plainWorkloadBytes (w : DesiredWorkload) : Nat :=
  27 + decimalBytes w.revision.toNat + (w.services.map plainServiceBytes).sum
    + (w.services.length - 1)

def plainEndpointBytes (e : Endpoint) : Nat :=
  72 + 2 * e.taskId.utf8ByteSize + e.address.utf8ByteSize + decimalBytes e.port.toNat
    + e.expiresAtUnix.toInt.repr.utf8ByteSize

def plainSnapshotBytes (c : ServiceCatalog) : Nat :=
  15 + (c.services.entries.map fun entry => 5 + entry.1.utf8ByteSize
      + (entry.2.entries.map fun e => plainEndpointBytes e.2).sum + (entry.2.entries.length - 1)).sum
    + (c.services.entries.length - 1)

def plainSizes : NodeSizes :=
  ⟨JournalSession.plainLineBytes, plainWorkloadBytes, plainSnapshotBytes, fun _ => true⟩

def plainService (name image : String) (instances floor : Nat) : ServiceSpec :=
  ⟨name, image, instances, 100, 1048576, 8080, ⟨1, 1, floor, 2⟩, ⟨2⟩⟩

def rollbackAlone (sz : NodeSizes) (h₀ : NodeHost) (now : Int64) (revision : UInt64)
    (spec : ServiceSpec) : Option (UInt64 × NodeHost) :=
  let h := (recoverAmbiguous sz now).after h₀
  let stale := h.executor.list.filter fun view =>
    view.service = spec.name ∧ view.revision ≠ revision
  match updatePlan spec revision stale with
  | .error _ => none
  | .ok steps =>
    match runSteps sz spec revision now steps h with
    | (.ok (.error _), h') => some (oldRevisionOf revision stale, h')
    | _ => none

variable {desired : DesiredWorkload}

theorem rollbackAlone_eq {sz : NodeSizes} {h₀ h : NodeHost} {now : Int64} {spec only : ServiceSpec} {old : UInt64}
    (hat : RollbackAt sz h₀ now desired spec old h) (honly : desired.services = [only]) :
    spec = only ∧ rollbackAlone sz h₀ now desired.revision only = some (old, h) := by
  obtain ⟨stale, u, steps, reason, ⟨⟨recovered, h₁, done, todo, report, hrecovered, -, hservices,
    hdone, rfl⟩, -⟩, hplan, hrun, rfl⟩ := hat.reached
  rw [honly] at hservices
  cases done with
  | cons spec' done => simp at hservices
  | nil =>
    obtain ⟨rfl, -⟩ := List.cons.inj hservices
    obtain ⟨-, rfl⟩ := Prod.mk.inj hdone
    have hafter : (recoverAmbiguous sz now).after h₀ = h₁ := congrArg Prod.snd hrecovered
    refine ⟨rfl, ?_⟩
    simp only [rollbackAlone, hafter, hplan, hrun]

theorem RollbackAt.stored {sz : NodeSizes} {h₀ h : NodeHost} {now : Int64} {spec : ServiceSpec} {old : UInt64}
    (hat : RollbackAt sz h₀ now desired spec old h) : h₀.workload = some desired := by
  obtain ⟨stale, u, steps, reason, ⟨⟨recovered, h₁, done, todo, report, hrecovered, hload, -⟩, -⟩,
    -⟩ := hat.reached
  have hsame : h₁.workload = h₀.workload := by
    have hwp : wp (recoverAmbiguous sz now) (fun _ h => h.workload = h₀.workload)
        (fun _ h => h.workload = h₀.workload) h₀ :=
      PassInvariant.wp_recoverAmbiguous (fun hn hJ => hn.workload.trans hJ) rfl
    unfold wp at hwp
    rwa [hrecovered] at hwp
  rw [← hsame]
  exact PassInvariant.load_eq_ok_some hload

end Ferrocrate.Node

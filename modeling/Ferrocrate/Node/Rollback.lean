import Ferrocrate.Node.NodeRun

/-! Aborted updates. A rollback stops every instance at the failed revision, of any service, and
starts the old ones with the new image: it is isolated and restores the old revision when no other
service is at the new revision yet and the image of a missing instance has not changed. -/
namespace Ferrocrate.Node
open Lib
open Lib.Program

def imageOf (published : List DesiredWorkload) (revision : UInt64) (service : String) :
    Option String :=
  (published.find? (·.revision = revision)).bind fun w =>
    (w.services.find? (·.name = service)).map (·.image)

def NodeEvent.About (service : String) : NodeEvent → Prop
  | mutated intent _ _ => intent.service = service ∧
      ∃ revision index, intent.instanceId = instanceId service revision index
  | recorded _ | journalFailed _ => True

def Isolated (spec : ServiceSpec) (u h : NodeHost) : Prop :=
  ∃ events, h.trace = events ++ u.trace ∧ ∀ e ∈ events, e.About spec.name

def Restored (published : List DesiredWorkload) (spec : ServiceSpec) (old : UInt64)
    (h : NodeHost) : Prop :=
  ∀ index < spec.instances, ∃ view,
    h.executor.instances.get (instanceId spec.name old index) = some view ∧
      view.service = spec.name ∧ view.revision = old ∧ view.running = true ∧
      imageOf published old spec.name = some view.image

/-- The updates of a pass that are aborted are isolated, and when all the mutations of the rollback
succeed they restore the previous revision. -/
def AbortsSafely (sz : NodeSizes) (published : List DesiredWorkload) (h₀ : NodeHost)
    (now : Int64) : Prop :=
  ∀ desired spec stale u steps reason hr, UpdateAt sz h₀ now desired spec stale u →
    updatePlan spec desired.revision stale = .ok steps →
    runSteps sz spec desired.revision now steps u = (.ok (.error reason), hr) →
      Isolated spec u ((rollingUpdate sz spec desired.revision stale now).after u) ∧
      (∀ aborted, (rollingUpdate sz spec desired.revision stale now).result u
          = .ok (.error aborted) →
        Restored published spec (oldRevisionOf desired.revision stale)
          ((rollingUpdate sz spec desired.revision stale now).after u))

/-- Where a rollback of the pass begins, only instances of its own service are at the new revision,
and where an instance of the previous revision is missing the image is still the same. -/
def RollbacksApart (sz : NodeSizes) (published : List DesiredWorkload) (h₀ : NodeHost)
    (now : Int64) : Prop :=
  ∀ desired spec old h, RollbackAt sz h₀ now desired spec old h →
    (∀ view ∈ h.executor.list, view.revision = desired.revision → view.service = spec.name) ∧
    (∀ index < spec.instances, h.executor.instances.get (instanceId spec.name old index) = none →
      imageOf published old spec.name = some spec.image)

variable {sz : NodeSizes} {published : List DesiredWorkload} {h h₀ : NodeHost} {now : Int64}
  {desired : DesiredWorkload} {spec : ServiceSpec} {intent : MutationIntent} {seq : UInt64}

structure Imaged (published : List DesiredWorkload) (h : NodeHost) : Prop where
  placed : Placed published h
  image : ∀ id view, h.executor.instances.get id = some view →
    imageOf published view.revision view.service = some view.image

theorem Placed.imageOf_stored (hp : Placed published h) (hworkload : h.workload = some desired)
    (hspec : spec ∈ desired.services) :
    imageOf published desired.revision spec.name = some spec.image := by
  have hdesired : desired ∈ published := List.mem_of_getLast? (hp.stored ▸ hworkload)
  have hnodup : (published.map (·.revision)).Nodup :=
    List.pairwise_map.mpr (hp.increasing.imp UInt64.ne_of_lt)
  have hfind : published.find? (·.revision = desired.revision) = some desired := by
    obtain ⟨w, hw⟩ : ∃ w, published.find? (·.revision = desired.revision) = some w :=
      Option.isSome_iff_exists.mp (List.find?_isSome.mpr ⟨desired, hdesired, by simp⟩)
    have hrevision : w.revision = desired.revision := by simpa using List.find?_some hw
    rw [hw, List.inj_on_of_nodup_map hnodup (List.mem_of_find?_eq_some hw) hdesired hrevision]
  have hservice : desired.services.find? (·.name = spec.name) = some spec := by
    obtain ⟨s, hs⟩ : ∃ s, desired.services.find? (·.name = spec.name) = some s :=
      Option.isSome_iff_exists.mp (List.find?_isSome.mpr ⟨spec, hspec, by simp⟩)
    have hname : s.name = spec.name := by simpa using List.find?_some hs
    rw [hs, hp.spec_unique hworkload (List.mem_of_find?_eq_some hs) hspec hname]
  simp [imageOf, hfind, hservice]

theorem Imaged.noted {h' : NodeHost} (hi : Imaged published h) (hnoted : Noted h h') :
    Imaged published h' :=
  ⟨hi.placed.noted hnoted, hnoted.executor ▸ hi.image⟩

theorem Imaged.performed (hi : Imaged published h)
    (hplaced : Placed published ((h.announced intent seq).performed intent))
    (himage : intent.action = .start →
      imageOf published intent.targetRevision intent.service = some intent.image) :
    Imaged published ((h.announced intent seq).performed intent) := by
  refine ⟨hplaced, fun id view hget => ?_⟩
  rcases mutate_cases h.executor intent with ⟨_, -, hsame⟩ | ⟨hstart, -, hinsert⟩ | ⟨-, -, herase⟩
  · exact hi.image id view (hsame ▸ hget)
  · have hget' : (h.executor.instances.insert intent.instanceId
        (h.executor.started intent)).get id = some view := by
      rw [← hget]
      exact congrArg (fun e : RecordingExecutor => e.instances.get id) hinsert.symm
    rw [OrdMap.get_insert] at hget'
    split at hget'
    · cases hget'
      exact himage hstart
    · exact hi.image id view hget'
  · have hget' : (h.executor.instances.erase intent.instanceId).get id = some view := by
      rw [← hget]
      exact congrArg (fun e : RecordingExecutor => e.instances.get id) herase.symm
    rw [OrdMap.get_erase] at hget'
    split at hget'
    · cases hget'
    · exact hi.image id view hget'

def Known (published : List DesiredWorkload) (view : InstanceView) : Prop :=
  (∃ unhealthy, Sits published unhealthy view.instanceId view) ∧
    imageOf published view.revision view.service = some view.image

theorem imaged_invariant (hcond : RollbacksApart sz published h₀ now)
    (desired : DesiredWorkload) : PassInvariant published desired (Imaged published)
      (Known published) (Permitted sz h₀ now desired (Known published)) where
  placed hi := hi.placed
  seen hi hget := ⟨(ManagedNode.placed_invariant sz published h₀ now desired).seen hi.placed hget,
    hi.image _ _ hget⟩
  noted hnoted hi := hi.noted hnoted
  mutated {h intent seq} hi hworkload hpermitted := by
    refine hi.performed
      (ManagedNode.placed_permitted hi.placed hworkload (fun _ hs => hs.1) hpermitted) ?_
    intro hstart
    cases hpermitted with
    | update hspec hupdating =>
      cases hupdating with
      | startNew _ => exact hi.placed.imageOf_stored hworkload hspec
      | stopOld _ _ => cases hstart
      | stopFailed _ _ _ _ _ => cases hstart
      | startOld hat _ _ hindex hmissing => exact (hcond _ _ _ _ hat).2 _ hindex hmissing
    | stopOrphan _ _ => cases hstart
    | stopSick _ _ => cases hstart
    | restart hseen => exact hseen.2

theorem Isolated.noted {u h' : NodeHost} (hi : Isolated spec u h) (hnoted : Noted h h') :
    Isolated spec u h' := by
  obtain ⟨events, htrace, hevents⟩ := hi
  obtain ⟨notes, hnotes, htrace', -⟩ := hnoted.trace
  refine ⟨notes ++ events, by rw [htrace', htrace, List.append_assoc], fun e he => ?_⟩
  rcases List.mem_append.mp he with he | he
  · have hnote := hnotes e he
    cases e with
    | recorded _ => trivial
    | journalFailed _ => trivial
    | mutated _ _ _ => exact hnote.elim
  · exact hevents e he

variable {u : NodeHost}

theorem Isolated.performed (hi : Isolated spec u h)
    (hservice : intent.service = spec.name)
    (hid : ∃ revision index, intent.instanceId = instanceId spec.name revision index) :
    Isolated spec u ((h.announced intent seq).performed intent) := by
  obtain ⟨events, htrace, hevents⟩ := hi.noted (noted_wrote h (.intent (intent.record seq)))
  refine ⟨.mutated intent (h.executor.mutate intent).1.isOk
    (h.executor.mutate intent).2.instances :: events, congrArg _ htrace, fun e he => ?_⟩
  rcases List.mem_cons.mp he with rfl | he
  · exact ⟨hservice, hid⟩
  · exact hevents e he

theorem isolated_invariant (hcond : RollbacksApart sz published h₀ now)
    (hspec : spec ∈ desired.services) :
    PassInvariant published desired (fun h => Placed published h ∧ Isolated spec u h)
      (fun view => ∃ unhealthy, Sits published unhealthy view.instanceId view)
      (Updating sz h₀ now desired
        (fun view => ∃ unhealthy, Sits published unhealthy view.instanceId view) spec) where
  placed hi := hi.1
  seen hi hget := (ManagedNode.placed_invariant sz published h₀ now desired).seen hi.1 hget
  noted hnoted hi := ⟨hi.1.noted hnoted, hi.2.noted hnoted⟩
  mutated {h intent seq} hi hworkload hupdating := by
    refine ⟨ManagedNode.placed_updating hi.1 hworkload hspec (fun _ hs => hs) hupdating, ?_⟩
    cases hupdating with
    | startNew _ => exact hi.2.performed rfl ⟨_, _, rfl⟩
    | stopOld _ _ => exact hi.2.performed rfl ⟨_, _, rfl⟩
    | startOld _ _ _ _ _ => exact hi.2.performed rfl ⟨_, _, rfl⟩
    | @stopFailed old hr view hat hseen hget hrevision _ =>
      have hservice := (hcond _ _ _ _ hat).1 view (mem_list_iff.mpr ⟨_, hget⟩) hrevision
      obtain ⟨_, hsits⟩ := hseen
      obtain ⟨index, hid, -⟩ := hsits.numbered
      exact hi.2.performed hservice ⟨_, index, hservice ▸ hid⟩

def BackAt (spec : ServiceSpec) (old : UInt64) (hr : NodeHost) (index : Nat) (h : NodeHost) :
    Prop :=
  ∃ view, h.executor.instances.get (instanceId spec.name old index) = some view ∧
    (hr.executor.instances.get (instanceId spec.name old index) = some view ∨
      (hr.executor.instances.get (instanceId spec.name old index) = none ∧
        view.service = spec.name ∧ view.revision = old ∧ view.running = true ∧
        view.image = spec.image))

theorem wp_startOld {hr : NodeHost} {old : UInt64} {index : Nat}
    (hspared : Spared hr desired.revision h.executor)
    (hmissing : hr.executor.instances.get (instanceId spec.name old index) = none) :
    wp (MutationIntent.apply sz ⟨.start, instanceId spec.name old index, spec.name, spec.image, old,
      now⟩) (fun _ h' => Spared hr desired.revision h'.executor ∧ BackAt spec old hr index h' ∧
        ∀ i, BackAt spec old hr i h → BackAt spec old hr i h') (fun _ _ => True) h := by
  refine wp_mono (wp_apply_executor _) ?_ fun _ _ _ => trivial
  rintro _ h' ⟨hexecutor, hok⟩
  have hinstances : h'.executor.instances = h.executor.instances.insert
      (instanceId spec.name old index) (h.executor.started
        ⟨.start, instanceId spec.name old index, spec.name, spec.image, old, now⟩) := by
    rcases mutate_cases h.executor ⟨.start, instanceId spec.name old index, spec.name, spec.image,
      old, now⟩ with ⟨_, herror, -⟩ | ⟨-, -, hinsert⟩ | ⟨haction, -⟩
    · rw [hok] at herror
      cases herror
    · rw [hexecutor, hinsert]
    · cases haction
  have hback : BackAt spec old hr index h' :=
    ⟨_, by rw [hinstances, OrdMap.get_insert_self], .inr ⟨hmissing, rfl, rfl, rfl, rfl⟩⟩
  refine ⟨fun id v hget hv => ?_, hback, fun i hi => ?_⟩
  · rw [hinstances, OrdMap.get_insert, if_neg]
    · exact hspared id v hget hv
    · rintro rfl
      rw [hmissing] at hget
      cases hget
  · by_cases hindex : i = index
    · exact hindex ▸ hback
    · obtain ⟨view, hget, hview⟩ := hi
      refine ⟨view, ?_, hview⟩
      rw [hinstances, OrdMap.get_insert, if_neg fun hid => hindex (instanceId_inj.mp hid).2.2]
      exact hget

theorem wp_rollback_back (hp : Placed published h) {old : UInt64} (hold : old ≠ desired.revision) :
    wp (rollback sz spec old desired.revision now)
      (fun _ h' => ∀ index < spec.instances, BackAt spec old h index h') (fun _ _ => True) h := by
  simp only [rollback, observed, wp_bind, wp_get, wp_pure, applyMutation_eq]
  refine wp_mono (wp_forM (I := fun h' => Spared h desired.revision h'.executor)
    (E := fun _ _ => True) ?_ fun _ _ hget _ => hget) ?_ fun _ _ _ => trivial
  · intro view hview h' hs
    obtain ⟨hmem, hrevision⟩ : view ∈ h.executor.list ∧ view.revision = desired.revision := by
      simpa using hview
    refine wp_mono (wp_apply_executor _) ?_ fun _ _ _ => trivial
    rintro _ h'' ⟨hexecutor, -⟩
    rw [hexecutor]
    exact hs.stop (hp.of_mem hmem).1 hrevision rfl
  · intro _ h' hs
    refine wp_mono (wp_forM_each (I := fun h' => Spared h desired.revision h'.executor)
      (P := BackAt spec old h) (E := fun _ _ => True) ?_ hs) ?_ fun _ _ _ => trivial
    · intro index _ h'' hs'
      rw [wp_runIf]
      refine ⟨fun hmissing => wp_startOld hs' (hp.get_eq_none hmissing), fun hpresent => ?_⟩
      rw [not_not] at hpresent
      obtain ⟨view, hview, hid⟩ := List.mem_map.mp hpresent
      obtain ⟨hmem, hrevision⟩ : view ∈ h.executor.list ∧ view.revision = old := by
        simpa using hview
      have hget := (hp.of_mem hmem).1
      rw [hid] at hget
      exact ⟨hs', ⟨view, hs' _ view hget (hrevision ▸ hold), .inl hget⟩, fun _ hi => hi⟩
    · intro _ h'' hback index hindex
      exact hback.2 index (List.mem_range.mpr hindex)

variable {stale : List InstanceView}

theorem aborts_isolated (hp : Placed published h₀) (hcond : RollbacksApart sz published h₀ now) (hat : UpdateAt sz h₀ now desired spec stale u) :
    Isolated spec u ((rollingUpdate sz spec desired.revision stale now).after u) := by
  obtain ⟨hspec, hwithin, views, hstale, hviews⟩ := PassInvariant.updateAt_within
    (ManagedNode.placed_invariant sz published h₀ now) hp hat
  have hstart : PassInvariant.Within (fun h => Placed published h ∧ Isolated spec u h) desired
      u.executor.unhealthy u :=
    ⟨⟨hwithin.holds, [], rfl, by simp⟩, hwithin.workload, rfl⟩
  have hwp := (isolated_invariant hcond hspec).wp_updateStale hviews (fun hfilter _ => by
    rw [hfilter, ← hstale]
    exact hat) hstart
  rw [← hstale, updateStale, if_neg hat.stale_ne] at hwp
  exact (after_of_wp hwp).holds.2

theorem aborts_restored (hi : Imaged published h₀) (hcond : RollbacksApart sz published h₀ now) {u hr : NodeHost} {steps : List RolloutStep} {reason : String}
    (hat : UpdateAt sz h₀ now desired spec stale u)
    (hplan : updatePlan spec desired.revision stale = .ok steps)
    (hrun : runSteps sz spec desired.revision now steps u = (.ok (.error reason), hr)) :
    wp (rollingUpdate sz spec desired.revision stale now)
      (fun _ h => Restored published spec (oldRevisionOf desired.revision stale) h)
      (fun _ _ => True) u := by
  obtain ⟨hspec, hwithin, views, hstale, hviews⟩ :=
    PassInvariant.updateAt_within (imaged_invariant hcond) hi hat
  have hmem : ∀ view ∈ stale, view ∈ views ∧ view.service = spec.name ∧
      view.revision ≠ desired.revision := by
    intro view hview
    rw [hstale] at hview
    simpa using hview
  have hr_imaged : Imaged published hr := by
    have hwp : wp (runSteps sz spec desired.revision now steps)
        (fun _ => PassInvariant.Within (Imaged published) desired u.executor.unhealthy)
        (fun _ => PassInvariant.Within (Imaged published) desired u.executor.unhealthy) u :=
      ((imaged_invariant hcond desired).update hspec).wp_runSteps
        (fun step hstep id hid => ((mem_plan hplan hstep).1 id hid).1)
        (fun step hstep id hid => by
          obtain ⟨view, hview, rfl⟩ := List.mem_map.mp ((mem_plan hplan hstep).2 id hid).1
          obtain ⟨hview, hservice, hrevision⟩ := hmem view hview
          obtain ⟨index, hid, -⟩ := (hviews view hview).2.numbered
          exact ⟨view.revision, index, hrevision, hservice ▸ hid⟩) hwithin
    unfold wp at hwp
    rw [hrun] at hwp
    exact hwp.holds
  have hold : oldRevisionOf desired.revision stale ≠ desired.revision := by
    obtain ⟨view, hview, hrevision⟩ := oldRevisionOf_mem desired.revision hat.stale_ne
    exact hrevision ▸ (hmem view hview).2.2
  have hrollback : RollbackAt sz h₀ now desired spec (oldRevisionOf desired.revision stale) hr :=
    ⟨stale, u, steps, reason, hat, hplan, hrun, rfl⟩
  rw [rollingUpdate, wp_bind, hplan]
  refine (wp_pure _ _ _ _).mpr ?_
  rw [wp_bind]
  refine wp_of_eq hrun ?_
  simp only [wp_bind]
  refine wp_mono (wp_rollback_back hr_imaged.placed hold) ?_ fun _ _ _ => trivial
  intro _ h' hback
  refine (wp_pure _ _ _ _).mpr fun index hindex => ?_
  obtain ⟨view, hget, hspared | ⟨hmissing, hservice, hrevision, hrunning, himage⟩⟩ :=
    hback index hindex
  · have hsits := hr_imaged.placed.sits _ view hspared
    obtain ⟨index', hid, -⟩ := hsits.numbered
    obtain ⟨hservice, hrevision, -⟩ := instanceId_inj.mp hid
    have himage := hr_imaged.image _ view hspared
    rw [← hservice, ← hrevision] at himage
    exact ⟨view, hget, hservice.symm, hrevision.symm, hsits.running, himage⟩
  · exact ⟨view, hget, hservice, hrevision, hrunning,
      himage ▸ (hcond _ _ _ _ hrollback).2 index hindex hmissing⟩

theorem abortsSafely_of_imaged (hi : Imaged published h₀)
    (hcond : RollbacksApart sz published h₀ now) : AbortsSafely sz published h₀ now := by
  intro desired spec stale u steps reason hr hat hplan hrun
  refine ⟨aborts_isolated hi.placed hcond hat, fun aborted hresult => ?_⟩
  exact ((wp_iff _ _ _ _).mp (aborts_restored hi hcond hat hplan hrun)).1 _ hresult

theorem imageOf_append {revision : UInt64} {service image : String} (w : DesiredWorkload)
    (himage : imageOf published revision service = some image) :
    imageOf (published ++ [w]) revision service = some image := by
  obtain ⟨w', hfind, hw'⟩ := Option.bind_eq_some_iff.mp himage
  rw [imageOf, List.find?_append, hfind]
  exact hw'

namespace ManagedNode

def Apart (sz : NodeSizes) (n : ManagedNode) : NodeCall → Prop
  | .reconcile now => RollbacksApart sz n.published n.host now
  | _ => True

def SafeAborts (sz : NodeSizes) (n : ManagedNode) : NodeCall → Prop
  | .reconcile now => AbortsSafely sz n.published n.host now
  | _ => True

theorem imaged_health (hi : Imaged published h) {id : String} {healthy : Bool}
    {unhealthy : List String} (hplaced : Placed published { h with executor := { h.executor with
      unhealthy := unhealthy
      instances := h.executor.instances.modify id fun view => { view with healthy := healthy } } }) :
    Imaged published { h with executor := { h.executor with
      unhealthy := unhealthy
      instances := h.executor.instances.modify id fun view => { view with healthy := healthy } } } := by
  refine ⟨hplaced, fun k view hget => ?_⟩
  rw [OrdMap.get_modify] at hget
  split at hget
  · obtain ⟨v, hv, rfl⟩ := Option.map_eq_some_iff.mp hget
    exact hi.image k v hv
  · exact hi.image k view hget

theorem imaged_step {n : ManagedNode} {call : NodeCall} (hcond : n.Apart sz call)
    (hi : Imaged n.published n.host) :
    Imaged (n.step sz call).published (n.step sz call).host := by
  have hplaced := placed_step sz hi.placed call
  cases call with
  | publish w =>
    rcases publishDesired_cases sz w n.host with ⟨e, hrun⟩ | ⟨hrun, -, -⟩
    · simp only [step, hrun]
      exact hi
    · simp only [step, hrun] at hplaced ⊢
      exact ⟨hplaced, fun id view hget => imageOf_append w (hi.image id view hget)⟩
  | reconcile now => exact after_of_wp (PassInvariant.wp_reconcile (imaged_invariant hcond) hi)
  | setUnhealthy id => exact imaged_health hi hplaced
  | clearUnhealthy id => exact imaged_health hi hplaced
  | restart now => exact ⟨hplaced, hi.image⟩
  | arm faults => exact ⟨hplaced, hi.image⟩
  | fates appendFails => exact ⟨hplaced, hi.image⟩
  | failStartsFor ids => exact ⟨hplaced, hi.image⟩
  | tick clock => exact ⟨hplaced, hi.image⟩

/-- In every run whose rollbacks begin apart, every aborted update is isolated, and a rollback whose
mutations succeed restores the previous revision with its own image. -/
theorem aborted_updates_safe (sz : NodeSizes) (clock : Int64) (calls : List NodeCall)
    (hcond : Runs.Along (step sz) (Apart sz) (new clock) calls) :
    Runs.Along (step sz) (SafeAborts sz) (new clock) calls := by
  have hstart : Imaged (new clock).published (new clock).host :=
    ⟨placed_run sz clock [], fun id view hget => by simp [new, NodeHost.new] at hget⟩
  have himaged := hcond.invariant (I := fun n => Imaged n.published n.host)
    (fun n call happart hi => imaged_step happart hi) hstart
  refine himaged.along (fun n call happart hi _ => ?_) hcond
  cases call with
  | reconcile now => exact abortsSafely_of_imaged hi happart
  | _ => trivial

def refusedUpdate : List NodeCall :=
  [.publish ⟨1, [plainService "web" "web:1" 2 1]⟩, .reconcile 1000,
    .publish ⟨2, [plainService "web" "web:1" 2 1]⟩, .failStartsFor ["web-r2-1"], .reconcile 1000]

def rollsBackApart (published : List DesiredWorkload) (revision : UInt64) (spec : ServiceSpec)
    (at? : Option (UInt64 × NodeHost)) : Bool :=
  at?.all fun rollback =>
    (rollback.2.executor.list.all fun view => view.revision ≠ revision ∨ view.service = spec.name) ∧
    ((List.range spec.instances).all fun index =>
      (rollback.2.executor.instances.get (instanceId spec.name rollback.1 index)).isSome ∨
        imageOf published rollback.1 spec.name = some spec.image)

theorem apart_of_rollsBackApart (revision : UInt64) (only : ServiceSpec)
    (hstored : h₀.workload = some ⟨revision, [only]⟩)
    (hcheck : rollsBackApart published revision only
      (rollbackAlone sz h₀ now revision only) = true) : RollbacksApart sz published h₀ now := by
  intro desired spec old h hat
  obtain rfl : _ = desired := Option.some.inj (hstored.symm.trans hat.stored)
  obtain ⟨rfl, halone⟩ := rollbackAlone_eq hat rfl
  simp only [halone, rollsBackApart, Option.all_some, List.all_eq_true, List.mem_range,
    decide_eq_true_eq, Bool.decide_and, Bool.and_eq_true] at hcheck
  refine ⟨fun view hview hrevision => ?_, fun index hindex hmissing => ?_⟩
  · exact (hcheck.1 view hview).resolve_left fun hne => hne hrevision
  · refine (hcheck.2 index hindex).resolve_left ?_
    simp [hmissing]

theorem refused_update_safe :
    Runs.Along (step plainSizes) (Apart plainSizes) (new 1000) refusedUpdate ∧
      Runs.Along (step plainSizes) (SafeAborts plainSizes) (new 1000) refusedUpdate := by
  have hcond : Runs.Along (step plainSizes) (Apart plainSizes) (new 1000) refusedUpdate := by
    refine ⟨trivial, apart_of_rollsBackApart 1 (plainService "web" "web:1" 2 1) ?_ ?_,
      trivial, trivial, apart_of_rollsBackApart 2 (plainService "web" "web:1" 2 1) ?_ ?_,
      trivial⟩ <;> decide +kernel
  exact ⟨hcond, aborted_updates_safe plainSizes 1000 refusedUpdate hcond⟩

def halfUpdate : List NodeCall :=
  [.publish ⟨1, [plainService "api" "api:1" 1 1, plainService "web" "web:1" 1 1]⟩, .reconcile 1000,
    .publish ⟨2, [plainService "api" "api:2" 1 1, plainService "web" "web:2" 1 1]⟩,
    .failStartsFor ["web-r2-0"]]

def halfHost : NodeHost := (recoverAmbiguous plainSizes 1000).after (run plainSizes 1000 halfUpdate).host

def halfStale : List InstanceView := halfHost.executor.list.filter fun view =>
  view.service = "web" ∧ view.revision ≠ 2

def halfReached : NodeHost := ([plainService "api" "api:2" 1 1].foldlM
  (reconcileService plainSizes halfHost.executor.list 2 1000) ⟨[], [], [], [], 0⟩).after halfHost

def halfSteps : List RolloutStep := [⟨["web-r2-0"], ["web-r1-0"]⟩]

def isOf (service : String) : NodeEvent → Bool
  | .mutated intent _ _ => intent.service = service
  | _ => true

theorem half_update_fails : ∃ reason, UpdateAt plainSizes (run plainSizes 1000 halfUpdate).host 1000
      ⟨2, [plainService "api" "api:2" 1 1, plainService "web" "web:2" 1 1]⟩
      (plainService "web" "web:2" 1 1) halfStale halfReached ∧
    updatePlan (plainService "web" "web:2" 1 1) 2 halfStale = .ok halfSteps ∧
    runSteps plainSizes (plainService "web" "web:2" 1 1) 2 1000 halfSteps halfReached
      = (.ok (.error reason), (runSteps plainSizes (plainService "web" "web:2" 1 1) 2 1000
        halfSteps).after halfReached) := by
  obtain ⟨recovered, hrecovered, hzero⟩ : ∃ n, recoverAmbiguous plainSizes 1000
      (run plainSizes 1000 halfUpdate).host = (.ok n, halfHost) ∧ (n == 0) = true :=
    eq_of_returns (by decide +kernel)
  obtain rfl : recovered = 0 := by simpa using hzero
  obtain ⟨report, hdone, -⟩ : ∃ report, [plainService "api" "api:2" 1 1].foldlM
      (reconcileService plainSizes halfHost.executor.list 2 1000) ⟨[], [], [], [], 0⟩ halfHost
        = (.ok report, halfReached) ∧ true = true :=
    eq_of_returns (p := fun _ => true) (by decide +kernel)
  obtain ⟨outcome, hrun, hfailed⟩ : ∃ outcome, runSteps plainSizes
      (plainService "web" "web:2" 1 1) 2 1000 halfSteps halfReached = (.ok outcome, _) ∧
        (!outcome.isOk) = true :=
    eq_of_returns (by decide +kernel)
  cases outcome with
  | ok outcome => cases hfailed
  | error reason =>
    refine ⟨reason, ⟨⟨0, halfHost, [plainService "api" "api:2" 1 1], [], report, hrecovered, ?_, rfl,
      hdone, rfl⟩, by decide +kernel⟩, by decide +kernel, hrun⟩
    decide +kernel

/-- The rollback of the second service stops the new instance of the first. -/
theorem rollback_stops_other_service :
    ¬ AbortsSafely plainSizes (run plainSizes 1000 halfUpdate).published
      (run plainSizes 1000 halfUpdate).host 1000 := by
  intro hsafe
  obtain ⟨reason, hat, hplan, hrun⟩ := half_update_fails
  obtain ⟨events, htrace, hevents⟩ := (hsafe _ _ _ _ _ _ _ hat hplan hrun).1
  have hall : events.all (isOf "web") = true := by
    rw [List.all_eq_true]
    intro e he
    have habout := hevents e he
    cases e with
    | mutated intent ok instances => exact decide_eq_true habout.1
    | recorded _ => rfl
    | journalFailed _ => rfl
  have hother : (eventsSince halfReached ((rollingUpdate plainSizes
      (plainService "web" "web:2" 1 1) 2 halfStale 1000).after halfReached)).all (isOf "web")
        = false := by decide +kernel
  rw [eventsSince_eq htrace, hall] at hother
  cases hother

end ManagedNode
end Ferrocrate.Node

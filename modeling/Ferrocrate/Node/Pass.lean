import Ferrocrate.Node.Placement

/-! What a pass can do to the instances: every mutation it issues is one of seven kinds, and what
they all keep is kept by the pass. -/
namespace Ferrocrate.Node
open Lib
open Lib.Program

structure UpdateAt (sz : NodeSizes) (h₀ : NodeHost) (now : Int64) (desired : DesiredWorkload)
    (spec : ServiceSpec) (stale : List InstanceView) (h : NodeHost) : Prop where
  reached : ∃ recovered h₁ done todo report, recoverAmbiguous sz now h₀ = (.ok recovered, h₁) ∧
    h₁.workload.load sz.workloadBytes = .ok (some desired) ∧
    desired.services = done ++ spec :: todo ∧
    done.foldlM (reconcileService sz h₁.executor.list desired.revision now)
      ⟨[], [], [], [], recovered⟩ h₁ = (.ok report, h) ∧
    stale = h₁.executor.list.filter fun view =>
      view.service = spec.name ∧ view.revision ≠ desired.revision
  stale_ne : stale ≠ []

structure RollbackAt (sz : NodeSizes) (h₀ : NodeHost) (now : Int64) (desired : DesiredWorkload)
    (spec : ServiceSpec) (old : UInt64) (h : NodeHost) : Prop where
  reached : ∃ stale u steps reason, UpdateAt sz h₀ now desired spec stale u ∧
    updatePlan spec desired.revision stale = .ok steps ∧
    runSteps sz spec desired.revision now steps u = (.ok (.error reason), h) ∧
    old = oldRevisionOf desired.revision stale

def healthyWithout (service id : String) (views : List InstanceView) : Nat :=
  healthyCount service views - (views.any fun view => view.instanceId = id ∧ view.healthy).toNat

inductive Updating (sz : NodeSizes) (h₀ : NodeHost) (now : Int64) (desired : DesiredWorkload)
    (Seen : InstanceView → Prop) (spec : ServiceSpec) : RecordingExecutor → MutationIntent → Prop
  | startNew {e index} (hindex : index < spec.instances) :
      Updating sz h₀ now desired Seen spec e ⟨.start, instanceId spec.name desired.revision index,
        spec.name, spec.image, desired.revision, now⟩
  | stopOld {e revision index} (hrevision : revision ≠ desired.revision)
      (hfloor : spec.update.revisionFloor
        ≤ healthyWithout spec.name (instanceId spec.name revision index) e.list) :
      Updating sz h₀ now desired Seen spec e ⟨.stop, instanceId spec.name revision index,
        spec.name, spec.image, desired.revision, now⟩
  | stopFailed {e old h view} (hat : RollbackAt sz h₀ now desired spec old h) (hseen : Seen view)
      (hget : h.executor.instances.get view.instanceId = some view)
      (hrevision : view.revision = desired.revision) (hspared : Spared h desired.revision e) :
      Updating sz h₀ now desired Seen spec e ⟨.stop, view.instanceId, view.service, view.image,
        desired.revision, now⟩
  | startOld {e old h index} (hat : RollbackAt sz h₀ now desired spec old h)
      (hold : old ≠ desired.revision)
      (horigin : ∃ view, Seen view ∧ view.service = spec.name ∧ view.revision = old)
      (hindex : index < spec.instances)
      (hmissing : h.executor.instances.get (instanceId spec.name old index) = none) :
      Updating sz h₀ now desired Seen spec e ⟨.start, instanceId spec.name old index, spec.name,
        spec.image, old, now⟩

inductive Permitted (sz : NodeSizes) (h₀ : NodeHost) (now : Int64) (desired : DesiredWorkload)
    (Seen : InstanceView → Prop) : RecordingExecutor → MutationIntent → Prop
  | update {e spec intent} (hspec : spec ∈ desired.services)
      (hupdating : Updating sz h₀ now desired Seen spec e intent) :
      Permitted sz h₀ now desired Seen e intent
  | stopOrphan {e view} (hseen : Seen view)
      (hname : view.service ∉ desired.services.map (·.name)) :
      Permitted sz h₀ now desired Seen e ⟨.stop, view.instanceId, view.service, view.image,
        view.revision, now⟩
  | stopSick {e view} (hseen : Seen view) (hsick : view.instanceId ∈ e.unhealthy) :
      Permitted sz h₀ now desired Seen e ⟨.stop, view.instanceId, view.service, view.image,
        view.revision, now⟩
  | restart {e view} (hseen : Seen view) :
      Permitted sz h₀ now desired Seen e ⟨.start, view.instanceId, view.service, view.image,
        view.revision, now⟩

structure PassInvariant (published : List DesiredWorkload) (desired : DesiredWorkload)
    (I : NodeHost → Prop) (Seen : InstanceView → Prop)
    (Allowed : RecordingExecutor → MutationIntent → Prop) : Prop where
  placed : ∀ {h}, I h → Placed published h
  seen : ∀ {h id view}, I h → h.executor.instances.get id = some view → Seen view
  noted : ∀ {h h'}, Noted h h' → I h → I h'
  mutated : ∀ {h intent seq}, I h → h.workload = some desired → Allowed h.executor intent →
    I ((h.announced intent seq).performed intent)

instance maxEqOr_uint64 : Std.MaxEqOr UInt64 where
  max_eq_or a b := by
    change (if a ≤ b then b else a) = a ∨ (if a ≤ b then b else a) = b
    split
    · exact .inr rfl
    · exact .inl rfl

theorem oldRevisionOf_mem (revision : UInt64) {stale : List InstanceView} (h : stale ≠ []) :
    ∃ view ∈ stale, view.revision = oldRevisionOf revision stale := by
  unfold oldRevisionOf
  cases hmax : (stale.map (·.revision)).max? with
  | none => simp [h] at hmax
  | some newest =>
    obtain ⟨view, hview, hrevision⟩ := List.mem_map.mp (List.max?_mem hmax)
    exact ⟨view, hview, hrevision⟩

namespace PassInvariant
variable {sz : NodeSizes} {published : List DesiredWorkload} {h₀ : NodeHost} {now : Int64}
  {I : NodeHost → Prop} {Seen : InstanceView → Prop} {desired : DesiredWorkload}
  {unhealthy : List String} {h : NodeHost} {spec : ServiceSpec}

structure Within (I : NodeHost → Prop) (desired : DesiredWorkload) (unhealthy : List String)
    (h : NodeHost) : Prop where
  holds : I h
  workload : h.workload = some desired
  unhealthy : h.executor.unhealthy = unhealthy

theorem Within.noted (hnoted : ∀ {h h'}, Noted h h' → I h → I h')
    (hw : Within I desired unhealthy h) {h' : NodeHost} (hn : Noted h h') :
    Within I desired unhealthy h' :=
  ⟨hnoted hn hw.holds, hn.workload.trans hw.workload, hn.executor ▸ hw.unhealthy⟩

theorem wp_allowed {Allowed : RecordingExecutor → MutationIntent → Prop}
    (inv : PassInvariant published desired I Seen Allowed) (hw : Within I desired unhealthy h)
    {intent : MutationIntent} (hallowed : Allowed h.executor intent) :
    wp (intent.apply sz) (fun _ => Within I desired unhealthy)
      (fun _ => Within I desired unhealthy) h := by
  have hdone (seq : UInt64) :
      Within I desired unhealthy ((h.announced intent seq).performed intent) :=
    ⟨inv.mutated hw.holds hw.workload hallowed, hw.workload,
      (mutate_unhealthy h.executor intent).trans hw.unhealthy⟩
  exact wp_apply (fun _ _ hnoted _ => hw.noted inv.noted hnoted)
    (fun seq _ _ hnoted _ => (hdone seq).noted inv.noted hnoted)
    (fun _ seq => (hdone seq).noted inv.noted (noted_wrote _ _))

section Update

theorem wp_startStep (inv : PassInvariant published desired I Seen (Updating sz h₀ now desired Seen spec))
    {ids : List String}
    (hids : ∀ id ∈ ids, id ∈ spec.instanceIds desired.revision)
    (hw : Within I desired unhealthy h) :
    wp (startStep sz spec desired.revision now ids) (fun _ => Within I desired unhealthy)
      (fun _ => Within I desired unhealthy) h := by
  induction ids generalizing h with
  | nil => exact (wp_pure _ _ _ _).mpr hw
  | cons id ids ih =>
    rw [startStep, wp_bind, wp_attempt, applyMutation_eq]
    obtain ⟨index, hindex, rfl⟩ : ∃ index < spec.instances,
        instanceId spec.name desired.revision index = id := by
      simpa [ServiceSpec.instanceIds] using hids id (by simp)
    have hrest := fun h' (hw' : Within I desired unhealthy h') =>
      ih (fun id hid => hids id (by simp [hid])) hw'
    refine wp_mono (inv.wp_allowed hw (.startNew hindex)) (fun _ h' hw' => hrest h' hw') ?_
    intro e h' hw'
    match e with
    | .crash point => exact (wp_throw _ _ _ _).mpr hw'
    | .error (.executor detail) => exact (wp_pure _ _ _ _).mpr hw'
    | .error (.workload _) | .error (.journal _) | .error (.unschedulable _)
    | .error (.catalog _) => exact hrest h' hw'

theorem preserves_waitUntilHealthy {I : NodeHost → Prop} (id : String) (attempts : Nat) :
    Preserves I (waitUntilHealthy id attempts) := by
  induction attempts with
  | zero => exact fun _ hs => hs
  | succ attempts ih =>
    intro s hs
    simp only [waitUntilHealthy, observed, wp_bind, wp_get, wp_pure, wp_ite]
    exact ⟨fun _ => hs, fun _ => ih s hs⟩

theorem preserves_awaitStep {I : NodeHost → Prop} (spec : ServiceSpec) (ids : List String) :
    Preserves I (awaitStep spec ids) := by
  induction ids with
  | nil => exact fun _ hs => hs
  | cons id ids ih =>
    refine (preserves_waitUntilHealthy id _).bind fun healthy => ?_
    cases healthy with
    | true => exact ih
    | false => exact preserves_pure _

theorem wp_stopStep (inv : PassInvariant published desired I Seen (Updating sz h₀ now desired Seen spec))
    {ids : List String}
    (hids : ∀ id ∈ ids, ∃ revision index, revision ≠ desired.revision ∧
      id = instanceId spec.name revision index)
    (hw : Within I desired unhealthy h) :
    wp (stopStep sz spec desired.revision now ids) (fun _ => Within I desired unhealthy)
      (fun _ => Within I desired unhealthy) h := by
  induction ids generalizing h with
  | nil => exact (wp_pure _ _ _ _).mpr hw
  | cons id ids ih =>
    obtain ⟨revision, index, hrevision, rfl⟩ := hids id (by simp)
    have hrest := fun h' (hw' : Within I desired unhealthy h') =>
      ih (fun id hid => hids id (by simp [hid])) hw'
    simp only [stopStep, stopOne, observed, wp_bind, wp_get, wp_pure, wp_ite, applyMutation_eq]
    refine ⟨fun hfloor => ?_, fun _ => hrest h hw⟩
    exact wp_mono (inv.wp_allowed hw (.stopOld hrevision hfloor))
      (fun _ h' hw' => hrest h' hw') fun _ _ hw' => hw'

theorem wp_runSteps (inv : PassInvariant published desired I Seen (Updating sz h₀ now desired Seen spec))
    {steps : List RolloutStep}
    (hstart : ∀ step ∈ steps, ∀ id ∈ step.start, id ∈ spec.instanceIds desired.revision)
    (hstop : ∀ step ∈ steps, ∀ id ∈ step.stop, ∃ revision index, revision ≠ desired.revision ∧
      id = instanceId spec.name revision index)
    (hw : Within I desired unhealthy h) :
    wp (runSteps sz spec desired.revision now steps) (fun _ => Within I desired unhealthy)
      (fun _ => Within I desired unhealthy) h := by
  induction steps generalizing h with
  | nil => exact (wp_pure _ _ _ _).mpr hw
  | cons step steps ih =>
    rw [runSteps, wp_bind]
    refine wp_mono (inv.wp_startStep (hstart step (by simp)) hw) ?_ fun _ _ hw => hw
    intro refusal h₁ hw₁
    cases refusal with
    | some reason => exact (wp_pure _ _ _ _).mpr hw₁
    | none =>
      refine wp_bind_of_preserves (preserves_awaitStep spec step.start) hw₁ (fun _ _ hw => hw) ?_
      intro late h₂ hw₂
      cases late with
      | some reason => exact (wp_pure _ _ _ _).mpr hw₂
      | none =>
        simp only [wp_bind]
        refine wp_mono (inv.wp_stopStep (hstop step (by simp)) hw₂) ?_ fun _ _ hw => hw
        intro stopped h₃ hw₃
        refine wp_mono (ih (fun s hs => hstart s (by simp [hs]))
          (fun s hs => hstop s (by simp [hs])) hw₃) ?_ fun _ _ hw => hw
        intro outcome h₄ hw₄
        cases outcome <;> exact (wp_pure _ _ _ _).mpr hw₄

theorem wp_rollback (inv : PassInvariant published desired I Seen (Updating sz h₀ now desired Seen spec)) (old : UInt64)
    (hat : RollbackAt sz h₀ now desired spec old h)
    (hold : old ≠ desired.revision)
    (horigin : ∃ view, Seen view ∧ view.service = spec.name ∧ view.revision = old)
    (hw : Within I desired unhealthy h) :
    wp (rollback sz spec old desired.revision now) (fun _ => Within I desired unhealthy)
      (fun _ => Within I desired unhealthy) h := by
  simp only [rollback, observed, wp_bind, wp_get, wp_pure, applyMutation_eq]
  have hplaced := inv.placed hw.holds
  refine wp_mono (wp_forM (I := fun h' => Within I desired unhealthy h' ∧
      Spared h desired.revision h'.executor) ?_ ⟨hw, fun _ _ hget _ => hget⟩) ?_ fun _ _ hw' => hw'
  · intro view hview h' hw'
    obtain ⟨hmem, hrevision⟩ : view ∈ h.executor.list ∧ view.revision = desired.revision := by
      simpa using hview
    have hget := (hplaced.of_mem hmem).1
    refine wp_mono (wp_and (inv.wp_allowed hw'.1 (Updating.stopFailed hat (inv.seen hw.holds hget)
      hget hrevision hw'.2)) (wp_apply_executor _)) ?_ fun _ _ hw' => hw'.1
    rintro _ h'' ⟨hw'', hexecutor, -⟩
    refine ⟨hw'', ?_⟩
    rw [hexecutor]
    exact hw'.2.stop hget hrevision rfl
  · rintro _ h' ⟨hw', -⟩
    refine wp_forM ?_ hw'
    intro index hindex h'' hw''
    rw [wp_runIf]
    refine ⟨fun hmissing => ?_, fun _ => hw''⟩
    exact inv.wp_allowed hw'' (.startOld hat hold horigin (List.mem_range.mp hindex)
      (hplaced.get_eq_none hmissing))

variable {views : List InstanceView}

theorem wp_updateStale (inv : PassInvariant published desired I Seen (Updating sz h₀ now desired Seen spec))
    (hviews : ∀ view ∈ views, Seen view ∧ Sits published unhealthy view.instanceId view)
    (hat : ∀ {stale}, stale = views.filter (fun view => view.service = spec.name ∧
      view.revision ≠ desired.revision) → stale ≠ [] → UpdateAt sz h₀ now desired spec stale h)
    (hw : Within I desired unhealthy h) :
    wp (updateStale sz spec desired.revision (views.filter fun view => view.service = spec.name ∧
      view.revision ≠ desired.revision) now) (fun _ => Within I desired unhealthy)
      (fun _ => Within I desired unhealthy) h := by
  generalize hstale : views.filter (fun view => view.service = spec.name ∧
    view.revision ≠ desired.revision) = stale at *
  have hmem : ∀ view ∈ stale, view ∈ views ∧ view.service = spec.name ∧
      view.revision ≠ desired.revision := by
    intro view hview
    rw [← hstale] at hview
    simpa using hview
  rw [updateStale, wp_ite]
  refine ⟨fun _ => (wp_pure _ _ _ _).mpr hw, fun hne => ?_⟩
  rw [rollingUpdate, wp_bind, wp_ofExcept]
  refine ⟨fun steps hplan => ?_, fun _ _ => hw⟩
  have hrun : wp (runSteps sz spec desired.revision now steps)
      (fun _ => Within I desired unhealthy) (fun _ => Within I desired unhealthy) h :=
    inv.wp_runSteps (fun step hstep id hid => ((mem_plan hplan hstep).1 id hid).1) (fun step hstep id hid => by
      obtain ⟨view, hview, rfl⟩ := List.mem_map.mp ((mem_plan hplan hstep).2 id hid).1
      obtain ⟨hview, hservice, hrevision⟩ := hmem view hview
      obtain ⟨index, hid, -⟩ := (hviews view hview).2.numbered
      exact ⟨view.revision, index, hrevision, hservice ▸ hid⟩) hw
  rw [wp_bind]
  refine wp_mono (wp_and hrun (wp_self _ h)) ?_ fun _ _ hw' => hw'.1
  rintro outcome h' ⟨hw', hself⟩
  cases outcome with
  | ok outcome => exact (wp_pure _ _ _ _).mpr hw'
  | error reason =>
    obtain ⟨view, hview, hrevision⟩ := oldRevisionOf_mem desired.revision hne
    obtain ⟨hseen, hservice, hstaleRevision⟩ := hmem view hview
    have hroll := inv.wp_rollback (oldRevisionOf desired.revision stale)
      ⟨stale, h, steps, reason, hat rfl hne, hplan, hself, rfl⟩
      (hrevision ▸ hstaleRevision) ⟨view, (hviews view hseen).1, hservice, hrevision⟩ hw'
    simp only [wp_bind]
    exact wp_mono hroll (fun _ _ hw'' => (wp_pure _ _ _ _).mpr hw'') fun _ _ hw'' => hw''

theorem surplus_eq_nil (hp : Placed published h) (hworkload : h.workload = some desired)
    (hspec : spec ∈ desired.services) :
    (((h.executor.list.filter fun view => view.service = spec.name ∧
      view.revision = desired.revision).map (·.instanceId)).filter
        (· ∉ spec.instanceIds desired.revision)) = [] := by
  simp only [List.filter_eq_nil_iff, List.mem_map, List.mem_filter, decide_eq_true_eq]
  rintro _ ⟨view, ⟨hview, hservice, hrevision⟩, rfl⟩
  obtain ⟨-, hsits⟩ := hp.of_mem hview
  obtain ⟨index, hid, hindex⟩ := hsits.numbered
  have hlt := hindex desired (hp.stored ▸ hworkload) hrevision.symm spec hspec hservice.symm
  simp only [ServiceSpec.instanceIds, List.mem_map, List.mem_range, not_not]
  exact ⟨index, hlt, by rw [hid, hservice, hrevision]⟩

theorem wp_convergeCount (inv : PassInvariant published desired I Seen (Updating sz h₀ now desired Seen spec))
    (hspec : spec ∈ desired.services) (hw : Within I desired unhealthy h) :
    wp (convergeCount sz spec desired.revision now) (fun _ => Within I desired unhealthy)
      (fun _ => Within I desired unhealthy) h := by
  simp only [convergeCount, observed, wp_bind, wp_get, wp_pure, applyMutation_eq]
  have hsurplus := surplus_eq_nil (inv.placed hw.holds) hw.workload hspec
  refine wp_mono (wp_forM ?_ hw) ?_ fun _ _ hw' => hw'
  · intro id hid h' hw'
    obtain ⟨⟨index, hindex, rfl⟩, -⟩ : (∃ index < spec.instances,
        instanceId spec.name desired.revision index = id) ∧ _ := by
      simpa [ServiceSpec.instanceIds] using hid
    exact inv.wp_allowed hw' (.startNew hindex)
  · intro _ h' hw'
    rw [hsurplus]
    exact hw'

theorem wp_reconcileService (inv : PassInvariant published desired I Seen (Updating sz h₀ now desired Seen spec)) {report : ReconcileReport} (hspec : spec ∈ desired.services)
    (hviews : ∀ view ∈ views, Seen view ∧ Sits published unhealthy view.instanceId view)
    (hat : ∀ {stale}, stale = views.filter (fun view => view.service = spec.name ∧
      view.revision ≠ desired.revision) → stale ≠ [] → UpdateAt sz h₀ now desired spec stale h)
    (hw : Within I desired unhealthy h) :
    wp (reconcileService sz views desired.revision now report spec)
      (fun _ => Within I desired unhealthy) (fun _ => Within I desired unhealthy) h := by
  simp only [reconcileService, wp_bind]
  refine wp_mono (inv.wp_updateStale hviews hat hw) ?_ fun _ _ hw' => hw'
  intro outcome h' hw'
  cases outcome with
  | error aborted => exact (wp_pure _ _ _ _).mpr hw'
  | ok outcome =>
    simp only [wp_bind]
    exact wp_mono (inv.wp_convergeCount hspec hw') (fun _ _ hw'' => hw'') fun _ _ hw'' => hw''

end Update

section Pass

theorem update (inv : PassInvariant published desired I Seen (Permitted sz h₀ now desired Seen))
    (hspec : spec ∈ desired.services) :
    PassInvariant published desired I Seen (Updating sz h₀ now desired Seen spec) where
  placed := inv.placed
  seen := inv.seen
  noted := inv.noted
  mutated hI hworkload hupdating := inv.mutated hI hworkload (.update hspec hupdating)

variable {views : List InstanceView}

theorem wp_stopOrphans (inv : PassInvariant published desired I Seen (Permitted sz h₀ now desired Seen)) (hseen : ∀ view ∈ views, Seen view)
    (hviews : ∀ view ∈ views, view.service ∉ desired.services.map (·.name))
    (hw : Within I desired unhealthy h) :
    wp (stopAll sz now views) (fun _ => Within I desired unhealthy)
      (fun _ => Within I desired unhealthy) h := by
  simp only [stopAll, applyMutation_eq]
  refine wp_forM ?_ hw
  intro view hview h' hw'
  exact inv.wp_allowed hw' (.stopOrphan (hseen view hview) (hviews view hview))

theorem mem_lookAt {acc : OrdMap String HealthTrack × List InstanceView}
    {view : InstanceView} (h : view ∈ (views.foldl (lookAt desired) acc).2) :
    view ∈ acc.2 ∨ (view ∈ views ∧ view.healthy = false) := by
  induction views generalizing acc with
  | nil => exact .inl h
  | cons v views ih =>
    rcases ih h with hacc | ⟨hmem, hsick⟩
    · unfold lookAt at hacc
      split at hacc
      · exact .inl hacc
      split at hacc
      · exact .inl hacc
      simp only at hacc
      split at hacc
      · next hlook =>
        rcases List.mem_append.mp hacc with hacc | hnew
        · exact .inl hacc
        · rw [List.mem_singleton.mp hnew]
          refine .inr ⟨by simp, ?_⟩
          cases hhealthy : v.healthy with
          | false => rfl
          | true => simp [HealthTrack.look, hhealthy] at hlook
      · exact .inl hacc
    · exact .inr ⟨by simp [hmem], hsick⟩

theorem wp_enforceHealth (inv : PassInvariant published desired I Seen (Permitted sz h₀ now desired Seen))
    (hw : Within I desired unhealthy h) :
    wp (enforceHealth sz desired now) (fun _ => Within I desired unhealthy)
      (fun _ => Within I desired unhealthy) h := by
  simp only [enforceHealth, wp_bind, wp_get, wp_modify, wp_pure, applyMutation_eq]
  refine wp_forM ?_ (hw.noted inv.noted (.of_eq rfl rfl rfl rfl))
  intro view hview h' hw'
  obtain ⟨hmem, hsick⟩ := (mem_lookAt hview).resolve_left (by simp)
  obtain ⟨hget, hsits⟩ := (inv.placed hw.holds).of_mem hmem
  have hseen := inv.seen hw.holds hget
  have hreported : view.instanceId ∈ unhealthy := by
    have hhealthy := hsits.healthy
    rw [hsick, hw.unhealthy] at hhealthy
    simpa using hhealthy.symm
  rw [wp_bind]
  refine wp_mono (inv.wp_allowed hw' (.stopSick hseen (hw'.unhealthy ▸ hreported))) ?_
    fun _ _ hw' => hw'
  intro _ h'' hw''
  exact inv.wp_allowed hw'' (.restart hseen)

theorem wp_publishCatalog {J : NodeHost → Prop} (hJ : ∀ {h h'}, Noted h h' → J h → J h') (hw : J h) :
    wp (publishCatalog sz views now) (fun _ => J) (fun _ => J) h := by
  simp only [publishCatalog, wp_bind, wp_ofExcept, wp_rejectIf, wp_modify]
  refine ⟨fun catalog _ => ⟨fun _ => hw, fun _ => ?_⟩, fun _ _ => hw⟩
  have hnext : Noted h { h with catalog := catalog, catalogFile := some catalog } :=
    .of_eq rfl rfl rfl rfl
  exact wp_trip (hJ hnext hw) fun h' hnoted _ => hJ (hnext.trans hnoted) hw

theorem wp_recoverAmbiguous {J : NodeHost → Prop} (hJ : ∀ {h h'}, Noted h h' → J h → J h')
    (hw : J h) : wp (recoverAmbiguous sz now) (fun _ => J) (fun _ => J) h := by
  simp only [recoverAmbiguous, wp_bind, wp_get]
  cases h.journal.load sz.lineBytes with
  | error error =>
    simp only [journalError, wp_bind, wp_modify, wp_throw]
    have hnoted : Noted h { h with trace := .journalFailed error :: h.trace } :=
      ⟨rfl, rfl, [.journalFailed error], by simp [NodeEvent.IsNote], rfl,
        (List.append_nil _).symm⟩
    exact hJ hnoted hw
  | ok entries =>
    simp only [wp_bind, wp_pure]
    refine wp_forM ?_ hw
    intro record _ h' hw'
    exact wp_appendOutcome (hJ (noted_wrote h' _) hw') fun error => hJ (noted_refused h' error) hw'

theorem wp_services (inv : PassInvariant published desired I Seen (Permitted sz h₀ now desired Seen))
    {recovered : Nat} {front back : List ServiceSpec}
    (hrecovered : recoverAmbiguous sz now h₀ = (.ok recovered, h))
    (hload : h.workload.load sz.workloadBytes = .ok (some desired))
    (hsplit : desired.services = front ++ back) (hw : Within I desired unhealthy h) :
    wp (front.foldlM (reconcileService sz h.executor.list desired.revision now)
      ⟨[], [], [], [], recovered⟩) (fun _ => Within I desired unhealthy)
      (fun _ => Within I desired unhealthy) h := by
  refine wp_foldlM ?_ hw
  intro done spec todo report h' hfront hdone hw'
  have hservices : desired.services = done ++ spec :: (todo ++ back) := by simp [hsplit, hfront]
  have hspec : spec ∈ desired.services := by simp [hservices]
  refine (inv.update hspec).wp_reconcileService hspec ?_ ?_ hw'
  · intro view hview
    obtain ⟨hget, hsits⟩ := (inv.placed hw.holds).of_mem hview
    exact ⟨inv.seen hw.holds hget, hw.unhealthy ▸ hsits⟩
  · intro stale hstale hne
    exact ⟨⟨recovered, h, done, todo ++ back, report, hrecovered, hload, hservices, hdone, hstale⟩,
      hne⟩

theorem wp_convergeTo (inv : PassInvariant published desired I Seen (Permitted sz h₀ now desired Seen)) {recovered : Nat}
    (hrecovered : recoverAmbiguous sz now h₀ = (.ok recovered, h))
    (hload : h.workload.load sz.workloadBytes = .ok (some desired))
    (hw : Within I desired unhealthy h) :
    wp (convergeTo sz desired recovered now) (fun _ => Within I desired unhealthy)
      (fun _ => Within I desired unhealthy) h := by
  simp only [convergeTo, observed, wp_bind, wp_get, wp_pure]
  refine wp_mono (inv.wp_services hrecovered hload (List.append_nil _).symm hw) ?_ fun _ _ hw' => hw'
  intro report h₁ hw₁
  refine wp_mono (inv.wp_stopOrphans ?_ ?_ hw₁) ?_ fun _ _ hw' => hw'
  · intro view hview
    have hget := ((inv.placed hw₁.holds).of_mem (List.mem_filter.mp hview).1).1
    exact inv.seen hw₁.holds hget
  · intro view hview
    simpa using (List.mem_filter.mp hview).2
  intro _ h₂ hw₂
  refine wp_mono (inv.wp_enforceHealth hw₂) ?_ fun _ _ hw' => hw'
  intro restarted h₃ hw₃
  have hnoted : ∀ {h h'}, Noted h h' → Within I desired unhealthy h →
      Within I desired unhealthy h' := fun hn hw => hw.noted inv.noted hn
  refine wp_mono (wp_publishCatalog hnoted hw₃) ?_ fun _ _ hw' => hw'
  intro _ h₄ hw₄
  simp only [saveState, wp_modify]
  exact hw₄.noted inv.noted (.of_eq rfl rfl rfl rfl)

variable {workloadBytes : DesiredWorkload → Nat}

theorem load_eq_ok_some {store : WorkloadStore}
    (h : store.load workloadBytes = .ok (some desired)) : store = some desired := by
  cases store with
  | none => cases h
  | some w =>
    obtain ⟨-, h⟩ := Except.ite_error_eq_ok.mp h
    cases hvalid : w.validate with
    | error _ => simp [hvalid] at h
    | ok _ =>
      simp only [hvalid] at h
      rw [Option.some.inj (Except.ok.inj h)]

theorem load_eq_ok_none {store : WorkloadStore}
    (h : store.load workloadBytes = .ok none) : store = none := by
  cases store with
  | none => rfl
  | some w =>
    obtain ⟨-, h⟩ := Except.ite_error_eq_ok.mp h
    cases hvalid : w.validate <;> simp [hvalid] at h

theorem wp_reconcile
    (inv : ∀ desired, PassInvariant published desired I Seen (Permitted sz h₀ now desired Seen))
    (hI : I h₀) : wp (reconcile sz now) (fun _ => I) (fun _ => I) h₀ := by
  have hplaced {h : NodeHost} := (inv ⟨0, []⟩).placed (h := h)
  have hnoted {g g' : NodeHost} (hn : Noted g g') (hg : I g) : I g' := (inv ⟨0, []⟩).noted hn hg
  rw [reconcile, wp_bind]
  refine wp_mono (wp_and (wp_recoverAmbiguous (fun hn hI => hnoted hn hI) hI)
    (wp_self _ h₀)) ?_ fun _ _ hI => hI.1
  rintro recovered h ⟨hI, hrecovered⟩
  simp only [wp_bind, wp_get, wp_ofExcept]
  refine ⟨fun stored hload => ?_, fun _ _ => hI⟩
  cases stored with
  | none =>
    have hempty := (hplaced hI).list_eq_nil (load_eq_ok_none hload)
    simp only [convergeToNothing, observed, wp_bind, wp_get, wp_pure, hempty, stopAll]
    refine wp_mono (wp_forM (I := I) (by simp) hI) ?_ fun _ _ hI => hI
    intro _ h' hI'
    refine wp_mono (wp_publishCatalog (fun hn hI => hnoted hn hI) hI') ?_ fun _ _ hI => hI
    intro _ h' hI'
    simp only [saveState, wp_modify]
    exact hnoted (g := h') (.of_eq rfl rfl rfl rfl) hI'
  | some desired =>
    have hw : Within I desired h.executor.unhealthy h := ⟨hI, load_eq_ok_some hload, rfl⟩
    exact wp_mono ((inv desired).wp_convergeTo hrecovered hload hw) (fun _ _ hw => hw.holds)
      fun _ _ hw => hw.holds

theorem updateAt_within
    (inv : ∀ desired, PassInvariant published desired I Seen (Permitted sz h₀ now desired Seen))
    (hI : I h₀) {stale : List InstanceView} {u : NodeHost}
    (hat : UpdateAt sz h₀ now desired spec stale u) :
    spec ∈ desired.services ∧ Within I desired u.executor.unhealthy u ∧
    ∃ views : List InstanceView, stale = views.filter (fun view => view.service = spec.name ∧
      view.revision ≠ desired.revision) ∧
      ∀ view ∈ views, Seen view ∧ Sits published u.executor.unhealthy view.instanceId view := by
  obtain ⟨recovered, h₁, done, todo, report, hrecovered, hload, hservices, hdone, hstale⟩ :=
    hat.reached
  have hI₁ : I h₁ := by
    have hwp : wp (recoverAmbiguous sz now) (fun _ => I) (fun _ => I) h₀ :=
      wp_recoverAmbiguous (fun hn hI => (inv desired).noted hn hI) hI
    unfold wp at hwp
    rwa [hrecovered] at hwp
  have hw : Within I desired h₁.executor.unhealthy h₁ := ⟨hI₁, load_eq_ok_some hload, rfl⟩
  have hu : Within I desired h₁.executor.unhealthy u := by
    have hwp := (inv desired).wp_services hrecovered hload hservices hw
    unfold wp at hwp
    rwa [hdone] at hwp
  refine ⟨by simp [hservices], ⟨hu.holds, hu.workload, rfl⟩, h₁.executor.list, hstale, ?_⟩
  intro view hview
  obtain ⟨hget, hsits⟩ := ((inv desired).placed hI₁).of_mem hview
  exact ⟨(inv desired).seen hI₁ hget, hu.unhealthy ▸ hsits⟩

end Pass

end PassInvariant
end Ferrocrate.Node
